import EncedoHem.Lib.Blame
import EncedoHem.Lib.Traced
import EncedoHem.Proofs.Confirm

namespace EncedoHem
open Text Dialogue

/-- The codes that a caller may take for something other than a failure. -/
def Rc.Telling (rc : Rc) : Prop := rc = .protocol ∨ rc = .notFound ∨ rc = .device

/-- A failure that is taken for something else: for success, or for the absence of what was asked for. -/
def Mistakable (rc : Rc) (status : Int) : Prop :=
  (rc = .protocol ∧ status = 200) ∨ rc = .notFound ∨ (rc = .device ∧ status = 406)

/-- The answer is behind a failure of that kind. -/
structure Response.Behind (r : Response) (rc : Rc) : Prop where
  protocol : rc = .protocol → 200 ≤ r.status ∧ r.status < 300
  notFound : rc = .notFound → r.status = 404
  device : rc = .device → r.status = 406

/-- A request of the token engine, to the device's login interface or to a broker. -/
def Request.OfEngine (req : Request) : Prop := lit "/api/auth/" <+: req.path ∨ req.tlsOverride = .verify

/-- The last thing on record is the token engine's own request, and the answer to it is behind the failure. -/
def Misread (es : List Event) (rc : Rc) : Prop := ∃ req r, lastDone es = some (req, r) ∧ req.OfEngine ∧ r.Behind rc

/-- The process could not be set up, for want of something. -/
def Unready (es : List Event) (rc : Rc) : Prop := rc = .notFound ∧ (⟨.globalInit, .error .notFound⟩ : Event) ∈ es

/-- A failure of the token engine that may be taken for something else has its cause in what the engine was told. -/
structure Owned (es : List Event) (rc : Rc) (s : Ctx) : Prop where
  denied : s.lastError.httpStatus = 401 ∨ s.lastError.httpStatus = 403 → ¬rc.Telling
  answered : Mistakable rc s.lastError.httpStatus → Misread es rc ∨ Unready es rc

theorem Misread.later {es es' : List Event} {rc : Rc} (h : Misread es' rc) : Misread (es ++ es') rc := by
  obtain ⟨req, r, hl, hrest⟩ := h
  exact ⟨req, r, lastDone_append hl, hrest⟩

theorem Owned.later {es es' : List Event} {rc : Rc} {s : Ctx} (h : Owned es' rc s) : Owned (es ++ es') rc s := by
  refine ⟨h.denied, fun hm => ?_⟩
  rcases h.answered hm with hr | ⟨hn, hi⟩
  · exact .inl hr.later
  · exact .inr ⟨hn, List.mem_append_right es hi⟩

def engineGrounds : Grounds Op Ans Ctx Rc := ⟨Owned, Owned.later⟩

/-- The last thing on record is the token engine's own request, with a 2xx answer. -/
def Passed (es : List Event) : Prop :=
  ∃ req r, lastDone es = some (req, r) ∧ req.OfEngine ∧ 200 ≤ r.status ∧ r.status < 300

theorem Mistakable.telling {rc : Rc} {status : Int} (h : Mistakable rc status) : rc.Telling := by
  rcases h with ⟨h, -⟩ | h | ⟨h, -⟩
  · exact .inl h
  · exact .inr (.inl h)
  · exact .inr (.inr h)

/-- Other failures are taken for what they are. -/
theorem Owned.of_not_telling {es : List Event} {rc : Rc} {s : Ctx} (h : ¬rc.Telling) : Owned es rc s :=
  ⟨fun _ => h, fun hm => absurd hm.telling h⟩

theorem send_not_telling (why : SendFailure) : ¬why.rc.Telling := by
  cases why with
  | _ => simp [Rc.Telling, SendFailure.rc]

theorem Rc.ofTransport.not_telling {rc : Rc} (h : rc.ofTransport) : ¬rc.Telling := by
  obtain ⟨why, rfl⟩ := h
  exact send_not_telling why

/-- A status outside of the 2xx range is behind what it is mapped to. -/
theorem mapped_behind {r : Response} (h2 : r.status < 200 ∨ 300 ≤ r.status)
    (hm : Mistakable (mapHttpStatus r.status) r.status) : r.Behind (mapHttpStatus r.status) := by
  unfold mapHttpStatus at *
  by_cases h401 : r.status = 401
  · simp [h401, Mistakable] at hm
  · by_cases h403 : r.status = 403
    · simp [h403, Mistakable] at hm
    · by_cases h404 : r.status = 404
      · simp only [h404]
        exact ⟨(by simp), (by simp [h404]), by simp⟩
      · by_cases h400 : 400 ≤ r.status
        · simp only [h401, h403, h404, h400, ↓reduceIte] at hm ⊢
          have h406 : r.status = 406 := by simpa [Mistakable] using hm
          exact ⟨(by simp), (by simp), fun _ => h406⟩
        · simp only [h401, h403, h404, h400, ↓reduceIte] at hm
          have h200 : r.status = 200 := by simpa [Mistakable] using hm
          omega

theorem mapped_denied {status : Int} (h : status = 401 ∨ status = 403) : ¬(mapHttpStatus status).Telling := by
  rcases h with rfl | rfl
  · simp [mapHttpStatus, Rc.Telling]
  · simp [mapHttpStatus, Rc.Telling]

/-- What a response fails with goes by its status. -/
theorem fault_behind {r : Response} {rc : Rc} (h : r.fault = some rc) :
    (r.status = 401 ∨ r.status = 403 → ¬rc.Telling) ∧ (Mistakable rc r.status → r.Behind rc) := by
  unfold Response.fault at h
  by_cases h2 : r.status < 200 ∨ 300 ≤ r.status
  · rw [if_pos h2] at h
    obtain rfl := Option.some.inj h
    exact ⟨mapped_denied, mapped_behind h2⟩
  · rw [if_neg h2] at h
    have hrc : rc = .protocol := by
      split at h
      · exact (Option.some.inj h).symm
      · exact (Option.some.inj h).symm
      · cases h
    subst hrc
    refine ⟨fun hd => by omega, fun _ => ⟨fun _ => by omega, ?_, ?_⟩⟩
    · intro hn
      cases hn
    · intro hn
      cases hn

namespace Blame
variable {α : Type} {cfg : Config}

abbrev Sound (x : Cmd α) : Prop := Blames engineGrounds (fun _ => none) x

theorem ctxFail {rc : Rc} (status : Int) (payload : Option Bytes) (fmt : List Piece) (h : ¬rc.Telling) :
    Sound (ctxFail rc status payload fmt : Cmd α) :=
  ⟨fun _ => wp_ctxFail_of fun _ _ _ _ _ _ he => Option.some.inj he ▸ .of_not_telling h⟩

/-- A protocol failure without a status is taken for one. -/
theorem protocol (payload : Option Bytes) (fmt : List Piece) : Sound (EncedoHem.ctxFail .protocol 0 payload fmt : Cmd α) := by
  refine ⟨fun s => wp_ctxFail_of fun es d hc hd he rc hr => ?_⟩
  obtain rfl := Option.some.inj hr
  constructor
  · intro h
    have h0 : d.httpStatus = 401 ∨ d.httpStatus = 403 := h
    omega
  · intro h
    have h0 : Mistakable .protocol d.httpStatus := h
    rw [hd] at h0
    simp [Mistakable] at h0

theorem throw {rc : Rc} (h : ¬rc.Telling) : Sound (throwRc rc : Cmd α) := .throw fun _ => .of_not_telling h

/-- A failure that is not taken for something else may be in the value of whatever is done. -/
theorem pure {o : α → Option Rc} {a : α} (h : ∀ rc, o a = some rc → ¬rc.Telling) :
    Blames engineGrounds o (Pure.pure a : Cmd α) :=
  ⟨fun _ => wp_pure.mpr fun rc hr => .of_not_telling (h rc hr)⟩

theorem need : Sound need :=
  .bind (.ask Op.alloc) fun _ => .ite (fun _ => .pure rfl) fun _ => ctxFail _ _ _ (by simp [Rc.Telling])

theorem parseJson (b : Bytes) : Sound (parseJson b) := .bind (.ask Op.alloc) fun _ => .pure rfl

theorem printObject (ms : List (Bytes × Json)) : Sound (printObject ms) := .bind need fun _ => .pure rfl

theorem clearError : Sound clearError := .modify _

theorem mark (m : Mark) : Sound (mark m) := .ask (Op.mark m)

theorem authPath {cfg : Config} {method : Method} {path : Bytes} {body : Option Bytes} {ov : TlsOverride} {fresh : Bool}
    (hp : lit "/api/auth/" <+: path) : (buildRequest cfg method path body none ov fresh).OfEngine := .inl hp

theorem requestPlainJson {method : Method} {path : Bytes} {body : Option Bytes} (hp : lit "/api/auth/" <+: path) :
    Sound (requestPlainJson cfg method path body) := by
  refine ⟨fun s => wp_mono (wp_requestPlainJson cfg method path body s) fun es r s' h rc hr => ?_⟩
  cases r with
  | ok root => cases hr
  | error e =>
    obtain rfl := Option.some.inj hr
    obtain ⟨sent, rest, last, rfl, hc, ht, hv⟩ := h.run
    cases hv with
    | bad r _ _ _ hf he =>
      obtain ⟨fresh, hl⟩ := ht.latest
      constructor
      · rw [he]
        exact (fault_behind hf).1
      · intro hm
        rw [he] at hm
        exact .inl ⟨_, r, by rw [hc.lastDone]; exact lastDone_eq.mpr hl, authPath hp, (fault_behind hf).2 hm⟩
    | lost _ _ _ _ _ hr _ => exact .of_not_telling hr.not_telling
    | garbled _ _ _ _ _ _ _ _ he =>
      constructor
      · intro h
        omega
      · intro h
        rw [he] at h
        simp [Mistakable] at h

theorem passed_requestPlainJson {method : Method} {path : Bytes} {body : Option Bytes} (hp : lit "/api/auth/" <+: path) :
    Draws (EncedoHem.requestPlainJson cfg method path body) fun es _ => Passed es := by
  refine ⟨fun s => wp_mono (wp_requestPlainJson cfg method path body s) fun es r s' h root hr => ?_⟩
  subst hr
  obtain ⟨fresh, r, b, hl, hf, -, -⟩ := h.answered
  refine ⟨_, r, hl, authPath hp, ?_⟩
  unfold Response.fault at hf
  by_cases h2 : r.status < 200 ∨ 300 ≤ r.status
  · rw [if_pos h2] at hf
    cases hf
  · omega

theorem notifySend {method : Method} {url body : Option Bytes} {subpath : Bytes} :
    Sound (notifySend cfg method url subpath body) := by
  refine ⟨fun s => wp_mono (wp_notifySend cfg method url body subpath s) fun es r s' h rc hr => ?_⟩
  cases h with
  | good before r hc h2 => cases hr
  | bad before after r d hc ha h2 hd =>
    obtain rfl := Option.some.inj hr
    have hs : (s.setError d).lastError.httpStatus = r.status := hd
    constructor
    · rw [hs]
      exact mapped_denied
    · intro hm
      rw [hs] at hm
      exact .inl ⟨_, r, by rw [ha.lastDone]; exact lastDone_append rfl, .inr rfl, mapped_behind h2 hm⟩
  | lost before after why expired detail d hc ha hd =>
    obtain rfl := Option.some.inj hr
    exact .of_not_telling (send_not_telling why)
  | unsent es rc d hc hr' hd =>
    obtain rfl := Option.some.inj hr
    exact .of_not_telling hr'.not_telling

theorem passed_notifySend {method : Method} {url body : Option Bytes} {subpath : Bytes} :
    Draws (EncedoHem.notifySend cfg method url subpath body) fun es v => Passed es ∧ 200 ≤ v.1 ∧ v.1 < 300 := by
  refine ⟨fun s => wp_mono (wp_notifySend cfg method url body subpath s) fun es r s' h v hr => ?_⟩
  cases h with
  | good before r hc h2 =>
    rw [← Except.ok.inj hr]
    exact ⟨⟨_, r, lastDone_append rfl, .inr rfl, h2⟩, h2⟩
  | bad before after r d hc ha h2 hd => cases hr
  | lost before after why expired detail d hc ha hd => cases hr
  | unsent es rc d hc hr' hd => cases hr

end Blame

/-- Commands that do nothing that is told from outside. -/
abbrev Quiet {α : Type} (x : Cmd α) : Prop := Keeps (Emits fun e : Event => e.op.quiet = true) x

theorem quiet_neutral : Neutral (Emits fun e : Event => e.op.quiet = true) := emits_neutral fun _ he => he

theorem Passed.calm {es es' : List Event} (h : Passed es) (hc : Calm es') : Passed (es ++ es') := by
  obtain ⟨req, r, hl, hrest⟩ := h
  exact ⟨req, r, by rw [hc.lastDone]; exact hl, hrest⟩

theorem Passed.later {es es' : List Event} (h : Passed es') : Passed (es ++ es') := by
  obtain ⟨req, r, hl, hrest⟩ := h
  exact ⟨req, r, lastDone_append hl, hrest⟩

/-- What comes after a 2xx answer to a request of the engine: a failure that is taken for something else is one
of that answer. -/
structure Trails {α : Type} (o : α → Option Rc) (x : Cmd α) : Prop where
  run : ∀ es s, Passed es →
    wp x (fun es' r s' => ∀ rc, failedWith o r = some rc → engineGrounds.shown (es ++ es') rc s') s

namespace Trails
variable {α β : Type} {o : α → Option Rc} {u : β → Option Rc} {x : Cmd α} {f : α → Cmd β}

theorem of_blames (hx : Blames engineGrounds o x) : Trails o x := ⟨fun es s _ => hx.after es s⟩

theorem pure {a : α} (h : o a = none) : Trails o (Pure.pure a : Cmd α) := of_blames (.pure h)

theorem protocol {status : Int} (payload : Option Bytes) (fmt : List Piece) (h2 : 200 ≤ status ∧ status < 300) :
    Trails o (ctxFail .protocol status payload fmt : Cmd α) := by
  refine ⟨fun es s hp => wp_ctxFail_of fun es' d hc hd _ rc hr => ?_⟩
  obtain rfl := Option.some.inj hr
  obtain ⟨req, r, hl, he, hr2⟩ := hp
  constructor
  · intro h
    have h0 : d.httpStatus = 401 ∨ d.httpStatus = 403 := h
    omega
  · intro _
    refine .inl ⟨req, r, by rw [hc.lastDone]; exact hl, he, fun _ => hr2, ?_, ?_⟩
    · intro hn
      cases hn
    · intro hn
      cases hn

theorem bind (hx : Trails (fun _ => none) x) (hq : Quiet x) (hf : ∀ a, Trails u (f a)) : Trails u (x >>= f) := by
  refine ⟨fun es s hp => wp_bind_of (wp_and (hx.run es s hp) (hq.run s)) ?_ ?_⟩
  · intro es₁ a s₁ h
    refine wp_mono ((hf a).run _ s₁ (hp.calm h.2)) fun es₂ r s₂ h₂ rc hr => ?_
    rw [← List.append_assoc]
    exact h₂ rc hr
  · intro es₁ rc s₁ h e he
    exact h.1 e he

theorem need_bind {f : Unit → Cmd β} (hf : ∀ a, Trails u (f a)) : Trails u (need >>= f) :=
  bind (of_blames Blame.need) quiet_neutral.need hf

end Trails

namespace Blame
variable {α β : Type} {cfg : Config}

/-- The part after a 2xx answer may go by it. -/
theorem bind_passed {x : Cmd α} {f : α → Cmd β} {o : β → Option Rc} {v : α → Prop} (hx : Sound x)
    (hv : Draws x fun es a => Passed es ∧ v a) (hf : ∀ a, v a → Trails o (f a)) : Blames engineGrounds o (x >>= f) :=
  hx.bind_draws hv fun es a s h => (hf a h.2).run es s h.1

/-- The same for a part that goes on after a failure as well. -/
theorem attempt_passed {x : Cmd α} {g : Except Rc α → Cmd β} {o : β → Option Rc} (hx : Sound x)
    (hv : Draws x fun es _ => Passed es) (hok : ∀ a, Trails o (g (.ok a)))
    (herr : ∀ rc, HandsOn engineGrounds rc o (g (.error rc))) : Blames engineGrounds o (x.attempt >>= g) := by
  refine ⟨fun s => wp_bind.mpr (wp_attempt.mpr (wp_mono (wp_and (hx.run s) (hv.run s)) fun es r s₁ h => ?_))⟩
  cases r with
  | ok a => exact (hok a).run es s₁ (h.2 a rfl)
  | error rc => exact (herr rc).run es s₁ (h.1 rc rfl)

theorem passed_bind {x : Cmd α} {f : α → Cmd β} {v : α → Prop} {w : β → Prop}
    (hv : Draws x fun es a => Passed es ∧ v a) (hq : ∀ a, Quiet (f a)) (hw : ∀ a, v a → Yields (f a) w) :
    Draws (x >>= f) fun es b => Passed es ∧ w b := by
  refine ⟨fun s => wp_bind_of (hv.run s) (fun es a s₁ h => ?_) fun es rc s₁ _ b hb => by cases hb⟩
  obtain ⟨hp, ha⟩ := h a rfl
  exact wp_mono (wp_and ((hq a).run s₁) ((hw a ha).run s₁)) fun es' r s₂ h' b hb => ⟨hp.calm h'.1, h'.2 b hb⟩

theorem passed_any {x : Cmd α} (h : Draws x fun es _ => Passed es) : Draws x fun es _ => Passed es ∧ True :=
  h.mono fun _ _ hp => ⟨hp, trivial⟩

theorem notifySendJson {method : Method} {url body : Option Bytes} {subpath : Bytes} :
    Sound (notifySendJson cfg method url subpath body) := by
  apply bind_passed notifySend passed_notifySend
  intro ⟨status, b⟩ h2
  cases b with
  | none => exact .protocol _ _ h2
  | some b =>
    apply Trails.bind (.of_blames (parseJson b)) (quiet_neutral.parseJson b)
    intro root
    split
    · exact .protocol _ _ h2
    · exact .pure rfl

theorem passed_notifySendJson {method : Method} {url body : Option Bytes} {subpath : Bytes} :
    Draws (EncedoHem.notifySendJson cfg method url subpath body) fun es _ => Passed es ∧ True := by
  apply passed_bind passed_notifySend _ fun _ _ => ⟨fun _ _ _ _ _ _ _ => trivial⟩
  intro ⟨status, b⟩
  cases b with
  | none => exact quiet_neutral.ctxFail ..
  | some b =>
    refine .bind (quiet_neutral.parseJson b) fun root => ?_
    split
    · exact quiet_neutral.ctxFail ..
    · exact .pure _

theorem brokerStr (root : Json) (what key : Bytes) : Trails (fun _ => none) (brokerStr root what key) := by
  unfold EncedoHem.brokerStr
  split
  · exact .protocol _ _ (by omega)
  · exact .need_bind fun _ => .pure rfl

theorem notifySession (url eid : Option Bytes) : Sound (notifySession cfg url eid) := by
  have hbody : Sound (sessionBody eid) := by
    cases eid with
    | none => exact .pure rfl
    | some e => exact .bind (printObject _) fun _ => .pure rfl
  refine .bind clearError fun _ => .bind hbody fun body => ?_
  exact bind_passed notifySendJson passed_notifySendJson fun root _ => brokerStr ..

theorem notifyEventNew (url : Option Bytes) (authreq epk : Bytes) : Sound (notifyEventNew cfg url authreq epk) := by
  refine .bind clearError fun _ => .bind (printObject _) fun body => ?_
  exact bind_passed notifySendJson passed_notifySendJson fun root _ => brokerStr ..

theorem notifyPoll {what stem id : Bytes} {url : Option Bytes} {tooLong : Piece} :
    Sound (notifyPoll cfg what stem id url tooLong) := by
  unfold EncedoHem.notifyPoll
  split
  · exact ctxFail _ _ _ (by simp [Rc.Telling])
  · apply bind_passed notifySend passed_notifySend
    intro ⟨status, body⟩ h2
    apply Trails.need_bind
    intro _
    split
    · exact .pure rfl
    · have hparse : Sound (parseOptional body) := by
        cases body with
        | none => exact .pure rfl
        | some b => exact parseJson b
      have hquiet : Quiet (parseOptional body) := by
        cases body with
        | none => exact .pure _
        | some b => exact quiet_neutral.parseJson b
      apply Trails.bind (.of_blames hparse) hquiet
      intro root
      split
      · exact .protocol _ _ h2
      · exact .pure rfl

theorem passed_notifyPoll {what stem id : Bytes} {url : Option Bytes} {tooLong : Piece} :
    Draws (EncedoHem.notifyPoll cfg what stem id url tooLong) fun es v =>
      Passed es ∧ ∀ status b root, v = .ready (status, b, root) → 200 ≤ status ∧ status < 300 := by
  unfold EncedoHem.notifyPoll
  split
  · exact ⟨fun s => wp_ctxFail_of fun _ _ _ _ _ _ h => by cases h⟩
  · apply passed_bind passed_notifySend
    · intro ⟨status, body⟩
      refine .bind quiet_neutral.need fun _ => .ite (fun _ => .pure _) fun _ => .bind ?_ fun root => ?_
      · cases body with
        | none => exact .pure _
        | some b => exact quiet_neutral.parseJson b
      · split
        · exact quiet_neutral.ctxFail ..
        · exact .pure _
    · intro ⟨status, body⟩ h2
      refine .bind fun _ => .ite (fun _ => .pure (by simp)) fun _ => .bind fun root => ?_
      split
      · exact yields_ctxFail ..
      · apply Yields.pure
        intro st b root' h
        cases h
        exact h2

theorem notifyEventCheck (url : Option Bytes) (eventid : Bytes) : Sound (notifyEventCheck cfg url eventid) := by
  refine .bind clearError fun _ => bind_passed notifyPoll passed_notifyPoll fun polled h2 => ?_
  split
  · exact .pure rfl
  · split
    · exact .pure rfl
    · split
      · exact .protocol _ _ (h2 _ _ _ rfl)
      · exact .need_bind fun _ => .pure rfl

theorem confirmCheck (c : Confirm) : Sound (confirmCheck cfg c) := by
  unfold EncedoHem.confirmCheck
  split
  · exact throw (by simp [Rc.Telling])
  · exact notifyEventCheck ..

/-- A 403 is handed on for what it is, whatever the check-in for it comes to. -/
theorem extLoginPost {path body : Bytes} (hp : lit "/api/auth/" <+: path) : Sound (extLoginPost cfg path body) := by
  refine .attempt_bind (requestPlainJson hp) (fun root => .bind .get fun _ => .pure rfl) fun rc => ?_
  apply HandsOn.get_bind
  intro es s h
  apply HandsOn.ite
  · intro h403
    have hn : ¬rc.Telling := h.denied (.inr h403.1)
    refine .of_blames (.bind (.attempted _) fun crc => ?_)
    split
    · exact .bind .get fun s => ctxFail _ _ _ hn
    · exact requestPlainJson hp
  · exact fun _ => .throw

theorem passed_extLoginPost {path body : Bytes} (hp : lit "/api/auth/" <+: path) :
    Draws (EncedoHem.extLoginPost cfg path body) fun es _ => Passed es := by
  have hover : ∀ es es' es'' : List Event, Passed es'' → Passed (es ++ (es' ++ es'')) := fun _ _ _ h => h.later.later
  refine (passed_requestPlainJson hp).attempt_bind (fun es root h => ?_) fun es rc => ?_
  · refine ⟨fun s => wp_bind.mpr (wp_getCtx.mpr (wp_pure.mpr fun _ _ => ?_))⟩
    simpa using h
  · refine .bind_any fun es₁ s => .ite (fun _ => .bind_any fun es₂ crc => ?_) fun _ => .throw _ _
    split
    · exact .bind_any fun _ _ => ⟨fun s => wp_ctxFail_of fun _ _ _ _ _ _ h => by cases h⟩
    · exact (passed_requestPlainJson hp).mono fun es₃ _ h => h.later.later.later

theorem reqStr (root : Json) (what key : Bytes) : Trails (fun _ => none) (reqStr root what key) := by
  unfold EncedoHem.reqStr
  split
  · exact .protocol _ _ (by omega)
  · exact .need_bind fun _ => .pure rfl

theorem quiet_reqStr (root : Json) (what key : Bytes) : Quiet (EncedoHem.reqStr root what key) := by
  unfold EncedoHem.reqStr
  split
  · exact quiet_neutral.ctxFail ..
  · exact .bind quiet_neutral.need fun _ => .pure _

theorem extRequest (epk scope : Bytes) (ctxStr note : Option Bytes) : Sound (extRequest cfg epk scope ctxStr note) := by
  have harg : ∀ fmt, Sound (EncedoHem.ctxFail .arg 0 none fmt : Cmd ExtRequestInfo) :=
    fun fmt => ctxFail _ _ _ (by simp [Rc.Telling])
  refine .bind clearError fun _ => .ite (fun _ => harg _) fun _ => .ite (fun _ => harg _) fun _ => ?_
  refine .ite (fun _ => harg _) fun _ => .ite (fun _ => harg _) fun _ => .bind (printObject _) fun body => ?_
  have hp : lit "/api/auth/" <+: extRequestPath := ⟨lit "ext/request", rfl⟩
  refine bind_passed (extLoginPost hp) (passed_any (passed_extLoginPost hp)) fun root _ => .need_bind fun _ => ?_
  refine .bind (reqStr ..) (quiet_reqStr ..) fun authreq => .bind (reqStr ..) (quiet_reqStr ..) fun epk => .pure rfl

theorem extToken (authreply : Bytes) : Sound (extToken cfg authreply) := by
  have hp : lit "/api/auth/" <+: extTokenPath := ⟨lit "ext/token", rfl⟩
  refine .bind clearError fun _ => .ite (fun _ => ctxFail _ _ _ (by simp [Rc.Telling])) fun _ => ?_
  refine .bind (printObject _) fun body => attempt_passed (extLoginPost hp) (passed_extLoginPost hp) ?_ fun rc => ?_
  · intro root
    apply Trails.bind (.of_blames .get) .get
    intro s
    dsimp only
    split
    · exact .protocol _ _ (by omega)
    · exact .need_bind fun _ => .pure rfl
  · apply HandsOn.get_bind
    intro es s h
    refine .ite (fun _ => .of_blames (ctxFail _ _ _ (by simp [Rc.Telling]))) fun _ => ?_
    exact .ite (fun _ => .of_blames (ctxFail _ _ _ (by simp [Rc.Telling]))) fun _ => .throw

/-- The failure of a push attempt is its outcome. -/
def pushFailure (p : Push) : Option Rc := failedWith (fun _ => none) p.outcome

theorem confirmFirePush (url : Option Bytes) (scope : Bytes) (ctxStr note : Option Bytes) :
    Blames engineGrounds pushFailure (confirmFirePush cfg url scope ctxStr note) := by
  refine .attempt_bind (notifySession ..) (fun epk => ?_) fun rc => .pure fun _ h => (Option.some.inj h).symm
  refine .attempt_bind (extRequest ..) (fun reqi => ?_) fun rc => .pure fun _ h => (Option.some.inj h).symm
  refine .attempt_bind (notifyEventNew ..) (fun id => .pure rfl) fun rc => .pure fun _ h => (Option.some.inj h).symm

theorem peekClaim (jwt key : Bytes) : Sound (peekClaim jwt key) :=
  .of_throws ⟨fun _ => wp_peekClaim_of fun _ _ _ _ e he => by cases he⟩

theorem authreqDrift (authreq : Bytes) : Sound (authreqDrift authreq) := by
  refine .bind (peekClaim ..) fun iat => ?_
  split
  · exact .pure rfl
  · exact .bind (.ask Op.wallTime) fun _ => .pure rfl

/-- A push that a broker let not through is tried again, or its outcome handed on. -/
theorem recoverPush (url : Option Bytes) (scope : Bytes) (ctxStr note : Option Bytes) (push : Push) (rc : Rc)
    (h : pushFailure push = some rc) :
    HandsOn engineGrounds rc (failedWith fun _ => none) (recoverPush cfg url scope ctxStr note push) := by
  have hout : failedWith (fun _ => none) push.outcome = some rc := h
  have hkeep : HandsOn engineGrounds rc (failedWith fun _ => none) (Pure.pure push.outcome : Cmd (Except Rc Bytes)) := by
    apply HandsOn.pure
    intro e he
    exact Option.some.inj (he.symm.trans hout)
  apply HandsOn.get_bind
  intro es s hs
  split
  · apply HandsOn.ite
    · intro h401
      have hn : ¬rc.Telling := hs.denied (.inl h401.1)
      have hsame : Blames engineGrounds (failedWith fun _ => none) (Pure.pure push.outcome : Cmd (Except Rc Bytes)) := by
        apply pure
        intro e he
        exact Option.some.inj (he.symm.trans hout) ▸ hn
      refine .of_blames (.bind (authreqDrift _) fun drift => .ite (fun _ => .bind (.attempted _) fun crc => ?_) fun _ => hsame)
      split
      · refine .bind_of (confirmFirePush ..) (fun p hp => .pure hp) fun p e hp => .pure fun e' he => ?_
        exact Option.some.inj (he.symm.trans hp)
      · exact hsame
    · exact fun _ => hkeep
  · exact hkeep

theorem newConfirm (url : Option Bytes) (scope : Bytes) : Sound (newConfirm url scope) := by
  refine .bind need fun _ => .bind need fun _ => ?_
  split
  · exact .pure rfl
  · exact .bind need fun _ => .pure rfl

theorem confirmBegin (url : Option Bytes) (scope : Bytes) (ctxStr note : Option Bytes) :
    Sound (confirmBegin cfg url scope ctxStr note) := by
  have hnotice : ∀ (id : Bytes) (c : Confirm),
      Sound (pushNotice cfg scope >>= fun _ => (Pure.pure { c with eventid := some id } : Cmd Confirm)) := fun id c => .bind (.ite (fun _ => .ask (Op.notice ..)) fun _ => .pure rfl) fun _ => .pure rfl
  refine .bind (newConfirm ..) fun c => .bind_of (confirmFirePush ..) (fun push hp => ?_) fun push rc hp => ?_
  · have hgood : ∃ id, push.outcome = .ok id := by
      cases ho : push.outcome with
      | ok id => exact ⟨id, rfl⟩
      | error rc =>
        unfold pushFailure at hp
        rw [ho] at hp
        cases hp
    obtain ⟨id, hid⟩ := hgood
    have hpass : EncedoHem.recoverPush cfg url scope ctxStr note push =
        EncedoHem.getCtx >>= fun _ => Pure.pure (.ok id) := by
      unfold EncedoHem.recoverPush
      rw [hid]
    rw [hpass, Cmd.bind_assoc]
    exact .bind .get fun _ => hnotice id c
  · apply (recoverPush url scope ctxStr note push rc hp).bind_of
    · intro outcome ho
      cases outcome with
      | ok id => exact hnotice id c
      | error e => cases ho
    · intro outcome e ho
      cases outcome with
      | ok id => cases ho
      | error e' =>
        obtain rfl := Option.some.inj ho
        exact .throw

theorem cachePut (scope token : Bytes) (exp : Int) : Sound (cachePut scope token exp) :=
  .of_throws ⟨fun _ => wp_cachePut (fun _ _ e he => by cases he) fun _ _ e he => by cases he⟩

theorem authCacheSeed (scope token : Bytes) : Sound (authCacheSeed scope token) := by
  have hneed : Sound needAuth := by
    refine .bind .get fun s => ?_
    split
    · exact .pure rfl
    · exact .bind need fun _ => .bind (.modify _) fun _ => .pure rfl
  have hexp : ∀ v, Sound (expiryOr v) := by
    intro v
    cases v with
    | some e => exact .pure rfl
    | none => exact .bind (.ask Op.authNow) fun _ => .pure rfl
  refine .bind hneed fun _ => .bind (peekClaim ..) fun exp => .bind (hexp exp) fun _ => .bind (cachePut ..) fun put => ?_
  exact .ite (fun _ => .pure rfl) fun _ => ctxFail _ _ _ (by simp [Rc.Telling])

theorem confirmRedeem (scope authreply : Bytes) : Sound (confirmRedeem cfg scope authreply) :=
  .bind (mark _) fun _ => .bind (extToken _) fun _ => .bind (authCacheSeed ..) fun _ => .pure rfl

/-- The failure of a poll is in what it returns. -/
def polledFailure {α : Type} (p : Except Rc α × Confirm) : Option Rc := failedWith (fun _ => none) p.1

theorem confirmPoll (c : Confirm) : Blames engineGrounds polledFailure (confirmPoll cfg c) := by
  have hover : Blames engineGrounds polledFailure
      ((EncedoHem.ctxFail .arg 0 none [txt "confirm: handle already finished (single-use)"] : Cmd ConfirmStatus).attempt >>=
        fun rc => Pure.pure (rc, c)) :=
    .bind_of (.attempt (ctxFail _ _ _ (by simp [Rc.Telling]))) (fun r hr => .pure hr) fun r rc hr =>
      .pure fun e he => Option.some.inj (he.symm.trans hr)
  refine .ite (fun _ => hover) fun _ => ?_
  refine .attempt_bind (confirmCheck c) (fun polled => ?_) fun rc => .pure fun _ h => (Option.some.inj h).symm
  cases polled with
  | pending => exact .pure rfl
  | ready answer =>
    cases answer with
    | denied =>
      exact .bind_of (.attempt (ctxFail _ _ _ (by simp [Rc.Telling]))) (fun r hr => .pure hr) fun r rc hr =>
        .pure fun e he => Option.some.inj (he.symm.trans hr)
    | approved authreply =>
      exact .bind_of (.attempt (confirmRedeem ..)) (fun r hr => .pure hr) fun r rc hr =>
        .pure fun e he => Option.some.inj (he.symm.trans hr)

theorem sleepMs (ms : Int) : Sound (sleepMs ms) := .ite (fun _ => .pure rfl) fun _ => .ask (Op.sleep ms)

theorem confirmWaitLoop (timeoutMs : Int) (rounds : Nat) (elapsed : Int) (c : Confirm) :
    Blames engineGrounds polledFailure (confirmWaitLoop cfg timeoutMs rounds elapsed c) := by
  induction rounds generalizing elapsed c with
  | zero => exact pure fun rc h => by obtain rfl := Option.some.inj h; simp [Rc.Telling]
  | succ rounds ih =>
    refine .bind_of (confirmPoll c) (fun p hp => ?_) fun p rc hp => ?_
    · obtain ⟨r, c'⟩ := p
      cases r with
      | error rc => cases hp
      | ok status =>
        cases status with
        | approved => exact .pure rfl
        | pending =>
          refine .ite (fun _ => ?_) fun _ => .bind (sleepMs _) fun _ => ih _ _
          exact .bind_of (.attempt (ctxFail _ _ _ (by simp [Rc.Telling]))) (fun r hr => .pure hr) fun r rc hr =>
            .pure fun e he => Option.some.inj (he.symm.trans hr)
    · obtain ⟨r, c'⟩ := p
      cases r with
      | error rc' => exact .pure fun e he => Option.some.inj (he.symm.trans hp)
      | ok status => cases hp

theorem confirmWait (c : Confirm) (timeoutMs : Int) :
    Blames engineGrounds polledFailure (confirmWait cfg c timeoutMs) := by
  refine .ite (fun _ => pure fun rc h => ?_) fun _ => confirmWaitLoop ..
  obtain rfl := Option.some.inj h
  simp [Rc.Telling]

theorem proactiveCheckin : Sound (proactiveCheckin cfg) := by
  refine .bind .get fun s => .ite (fun _ => .bind (.modify _) fun _ => .bind (.attempted _) fun r => ?_) fun _ => .pure rfl
  split
  · exact .pure rfl
  · exact .pure rfl

theorem liftRc {r : Except Rc α} (h : failedWith (fun _ => none) r = none) : Sound (liftRc r) := by
  cases r with
  | ok a => exact .pure rfl
  | error rc => cases h

theorem liftRc_error {r : Except Rc α} {rc : Rc} (h : failedWith (fun _ => none) r = some rc) :
    HandsOn engineGrounds rc (fun _ => none) (EncedoHem.liftRc r) := by
  cases r with
  | ok a => cases h
  | error e =>
    obtain rfl := Option.some.inj h
    exact .throw

/-- A failure in a value is thrown, and nothing else comes of it. -/
theorem bind_lift {β γ : Type} {x : Cmd β} {g : β → Except Rc α} {f : α → Cmd γ}
    (hx : Blames engineGrounds (fun b => failedWith (fun _ => none) (g b)) x) (hf : ∀ a, Sound (f a)) :
    Sound (x >>= fun b => EncedoHem.liftRc (g b) >>= f) := by
  apply hx.bind_of
  · exact fun b hb => .bind (liftRc hb) hf
  · intro b rc hb
    apply (liftRc_error hb).bind_of
    · exact fun a _ => hf a
    · intro a e he
      cases he

theorem acquireMobile (scope : Bytes) : Sound (acquireMobile cfg scope) := by
  refine .bind (mark _) fun _ => .bind proactiveCheckin fun _ => .bind (confirmBegin ..) fun c => ?_
  refine bind_lift (g := Prod.fst) (confirmWait c _) fun _ => .bind .get fun s => ?_
  split
  · exact protocol ..
  · exact .bind (mark _) fun _ => .pure rfl

theorem noteUsername (challenge : Json) : Sound (noteUsername challenge) := by
  unfold EncedoHem.noteUsername
  split
  · exact .pure rfl
  · exact .bind (.ask Op.alloc) fun ok => .ite (fun _ => .modify _) fun _ => .pure rfl

theorem redeemEjwt (scope ejwt : Bytes) (now : Int) : Sound (redeemEjwt cfg scope ejwt now) := by
  have hp : lit "/api/auth/" <+: authTokenPath := ⟨lit "token", rfl⟩
  refine .bind need fun _ => bind_passed (requestPlainJson hp) (passed_any (passed_requestPlainJson hp)) fun result _ => ?_
  split
  · exact .protocol _ _ (by omega)
  · refine .of_blames (.bind (peekClaim ..) fun exp => .bind (cachePut ..) fun put => .ite (fun _ => ?_) fun _ => ?_)
    · exact .bind (.modify _) fun _ => .pure rfl
    · exact ctxFail _ _ _ (by simp [Rc.Telling])

theorem answerChallenge (scope : Bytes) (now : Int) (challenge : Json) : Sound (answerChallenge cfg scope now challenge) := by
  unfold EncedoHem.answerChallenge
  split
  · refine .bind (noteUsername _) fun _ => ?_
    split
    · exact protocol ..
    · refine .bind (.attempted _) fun ejwt => ?_
      split
      · exact protocol ..
      · exact redeemEjwt ..
  · exact protocol ..

/-- The failure of a challenge is in what its fetching returns. -/
def fetchedFailure (p : Except Rc Json × Bool) : Option Rc := failedWith (fun _ => none) p.1

theorem fetchChallenge (spent : Bool) : Blames engineGrounds fetchedFailure (fetchChallenge cfg spent) := by
  have hp : lit "/api/auth/" <+: authTokenPath := ⟨lit "token", rfl⟩
  refine .attempt_bind (requestPlainJson hp) (fun root => .bind .get fun _ => .pure rfl) fun rc => ?_
  apply HandsOn.get_bind
  intro es s h
  apply HandsOn.ite
  · intro h403
    have hn : ¬rc.Telling := h.denied (.inr h403.1)
    refine .of_blames (.bind (.attempted _) fun crc => ?_)
    split
    · refine .bind .get fun s => .bind_of (.attempt (ctxFail _ _ _ hn)) (fun r hr => .pure hr) fun r e hr => ?_
      exact .pure fun e' he => Option.some.inj (he.symm.trans hr)
    · refine .bind_of (.attempt (requestPlainJson hp)) (fun r hr => .pure hr) fun r e hr => ?_
      exact .pure fun e' he => Option.some.inj (he.symm.trans hr)
  · exact fun _ => .pure fun e he => (Option.some.inj he).symm

def acquiredFailure (a : Acquired) : Option Rc := failedWith (fun _ => none) a.outcome

theorem acquireToken (scope : Bytes) (now : Int) (spent : Bool) :
    Blames engineGrounds acquiredFailure (acquireToken cfg scope now spent) := by
  refine ⟨fun s => ?_⟩
  unfold EncedoHem.acquireToken
  rw [wp_bind, wp_globalInit]
  intro init
  cases init with
  | error rc =>
    dsimp only
    rw [wp_bind, wp_attempt]
    refine wp_ctxFail_of fun es d hc hd _ => wp_pure.mpr fun e he => ?_
    obtain rfl := Option.some.inj he
    have h0 : (s.setError d).lastError.httpStatus = 0 := hd
    constructor
    · intro h
      omega
    · intro hm
      rw [h0] at hm
      have hrc : rc = .notFound := by simpa [Mistakable] using hm
      subst hrc
      exact .inr ⟨rfl, by simp⟩
  | ok _ =>
    apply Blames.after
    refine .bind_of (fetchChallenge spent) (fun p hp => ?_) fun p rc hp => ?_
    · obtain ⟨r, spent⟩ := p
      cases r with
      | error rc => cases hp
      | ok challenge =>
        exact .bind_of (.attempt (answerChallenge ..)) (fun r hr => .pure hr) fun r rc hr =>
          .pure fun e he => Option.some.inj (he.symm.trans hr)
    · obtain ⟨r, spent⟩ := p
      cases r with
      | error rc' => exact .pure fun e he => Option.some.inj (he.symm.trans hp)
      | ok challenge => cases hp

/-- What is tried again after a 401 is told like the first try; nothing else is taken for something else there. -/
theorem recoverDrift (scope : Bytes) (a : Acquired) (rc : Rc) (h : acquiredFailure a = some rc) :
    HandsOn engineGrounds rc (failedWith fun _ => none) (recoverDrift cfg scope a) := by
  have hauth : ¬Rc.authFailed.Telling := by simp [Rc.Telling]
  have hkeep : HandsOn engineGrounds rc (failedWith fun _ => none) (Pure.pure a.outcome : Cmd (Except Rc Bytes)) :=
    .pure fun e he => Option.some.inj (he.symm.trans h)
  apply HandsOn.get_bind
  intro es s hs
  split
  · apply HandsOn.ite
    · intro _
      refine .of_blames (.bind (.attempted _) fun crc => ?_)
      split
      · refine .bind (.ask Op.authNow) fun now => .bind_of (acquireToken ..) (fun b hb => .pure hb) fun b e hb => ?_
        exact .pure fun e' he => Option.some.inj (he.symm.trans hb)
      · exact .bind .get fun s => .attempt (ctxFail _ _ _ hauth)
    · exact fun _ => hkeep
  · exact hkeep

theorem acquirePassphrase (scope : Bytes) (now : Int) : Sound (acquirePassphrase cfg scope now) := by
  have hrest : ∀ failed token, Sound (breadcrumb failed >>= fun _ => EncedoHem.mark (.granted scope token none) >>= fun _ =>
      (Pure.pure token : Cmd Bytes)) := by
    intro failed token
    exact .bind (.ite (fun _ => .modify _) fun _ => .pure rfl) fun _ => .bind (mark _) fun _ => .pure rfl
  refine .bind (mark _) fun _ => .bind proactiveCheckin fun failed => ?_
  refine .bind_of (acquireToken ..) (fun a ha => ?_) fun a rc ha => ?_
  · have hpass : Blames engineGrounds (failedWith fun _ => none) (EncedoHem.recoverDrift cfg scope a) := by
      obtain ⟨outcome, spent, drift⟩ := a
      cases outcome with
      | error rc => cases ha
      | ok token => exact .bind .get fun s => .pure rfl
    exact bind_lift (g := id) hpass (hrest failed)
  · apply (recoverDrift scope a rc ha).bind_of
    · exact fun r hr => .bind (liftRc hr) (hrest failed)
    · intro r e hr
      apply (liftRc_error hr).bind_of
      · exact fun token _ => hrest failed token
      · intro _ _ he
        cases he

/-- Whatever the token engine fails with that could be taken for something else, it was told itself: by the last
thing on record, the answer to a request of its own. -/
theorem ensureToken (scope : Bytes) : Sound (ensureToken cfg scope) := by
  have hexpired : ∀ fmt, Sound (EncedoHem.ctxFail .authExpired 0 none fmt : Cmd Bytes) :=
    fun fmt => ctxFail _ _ _ (by simp [Rc.Telling])
  refine .bind (.ask Op.authNow) fun now => .bind .get fun s => ?_
  split
  · exact .bind (mark _) fun _ => .pure rfl
  · split
    · refine .ite (fun _ => acquireMobile _) fun _ => ?_
      split
      · exact acquirePassphrase ..
      · exact hexpired _
    · exact hexpired _

end Blame

end EncedoHem
