import EncedoHem.Proofs.Blame
import EncedoHem.Proofs.Verdict

namespace EncedoHem
open Text Dialogue

namespace Call
variable {c : Call} {cfg : Config}

/-- The call's own request has a final answer. -/
def Ended (c : Call) (es : List Event) : Prop := ∃ a, c.Final es a

theorem Ended.later {es es' : List Event} (h : c.Ended es') : c.Ended (es ++ es') := by
  obtain ⟨a, pre, post, scope, req, rfl, hs, hr⟩ := h
  exact ⟨a, es ++ pre, post, scope, req, by simp, hs, hr⟩

theorem Ended.rest {es es' : List Event} (h : c.Ended es) (hr : c.Rest es') : c.Ended (es ++ es') := by
  obtain ⟨a, pre, post, scope, req, rfl, hs, hpost⟩ := h
  refine ⟨a, pre, post ++ es', scope, req, by simp, hs, fun e he => ?_⟩
  rcases List.mem_append.mp he with he | he
  · exact hpost e he
  · exact hr e he

theorem Rest.calm {es : List Event} (h : Calm es) : c.Rest es := by
  intro e he
  refine ⟨silent_calm h e he, ?_⟩
  have hq := h e he
  obtain ⟨op, ans⟩ := e
  cases op with
  | authNow => cases hq
  | wallTime => cases hq
  | _ => rfl

/-- What a request comes to: it succeeds on a final answer only, and a failure that may be taken for something else
is on that answer, or on what the token engine was told. -/
structure Based (c : Call) (es : List Event) (r : Except Rc Bytes) (s' : Ctx) : Prop where
  succeeded : ∀ b, r = .ok b → c.Ended es
  failed : ∀ rc, r = .error rc → Mistakable rc s'.lastError.httpStatus → c.Ended es ∨ Misread es rc ∨ Unready es rc

theorem Based.later {es es' : List Event} {r : Except Rc Bytes} {s' : Ctx} (h : c.Based es' r s') :
    c.Based (es ++ es') r s' := by
  refine ⟨fun b hb => (h.succeeded b hb).later, fun rc hr hm => ?_⟩
  rcases h.failed rc hr hm with he | he | ⟨hn, hi⟩
  · exact .inl he.later
  · exact .inr (.inl he.later)
  · exact .inr (.inr ⟨hn, List.mem_append_right es hi⟩)

theorem Based.ended {es : List Event} {r : Except Rc Bytes} {s' : Ctx} (h : c.Ended es) : c.Based es r s' :=
  ⟨fun _ _ => h, fun _ _ _ => .inl h⟩

theorem Based.not_telling {es : List Event} {rc : Rc} {s' : Ctx} (h : ¬rc.Telling) : c.Based es (.error rc) s' :=
  ⟨fun b hb => (by cases hb), fun e he hm => absurd (Except.error.inj he ▸ hm.telling) h⟩

theorem Based.owned {es : List Event} {rc : Rc} {s' : Ctx} (h : Owned es rc s') : c.Based es (.error rc) s' :=
  ⟨fun b hb => (by cases hb), fun e he hm => .inr (Except.error.inj he ▸ h.answered (Except.error.inj he ▸ hm))⟩

/-- A dispatch of the call's own request, and what comes after it. -/
theorem wp_based_dispatch {α : Type} {f : Answer → Cmd α} {bearer : Option Bytes} {fresh : Bool} {s : Ctx}
    {Q : List Event → Except Rc α → Ctx → Prop}
    (hf : ∀ a es, c.Ended es → wp (f a) (fun es' r s' => Q (es ++ es') r s') s) :
    wp (doSend cfg c.scope c.method c.path c.body bearer c.ov fresh >>= f) Q s := by
  rw [wp_bind, wp_doSend]
  intro a
  refine hf a _ (Ended.later ⟨a, [], [], c.scope, _, rfl, ?_, .nil⟩)
  simp [sent, buildRequest]

theorem wp_based_retry {resp : Response} {s : Ctx} {es : List Event} (h : c.Ended es) :
    wp (retryAuth (ensureToken cfg) (fun bearer => doSend cfg c.scope c.method c.path c.body bearer c.ov true)
      c.path c.scope resp >>= judge c.path) (fun es' r s' => c.Based (es ++ es') r s') s := by
  have hjudge : ∀ (es : List Event) (resp : Response) (s : Ctx), c.Ended es →
      wp (judge c.path resp) (fun es' r s' => c.Based (es ++ es') r s') s := by
    intro es resp s he
    apply wp_judge_of
    · exact fun b _ _ => .ended (he.rest .nil)
    · exact fun rc es' d _ hc _ => .ended (he.rest (.calm hc))
  unfold retryAuth
  cases hs : c.scope with
  | none => exact hjudge es resp s h
  | some sc =>
    dsimp only
    by_cases h401 : resp.status = 401
    · simp only [h401, ne_eq, not_true_eq_false, ↓reduceIte, Cmd.bind_assoc]
      unfold authInvalidate modifyAuth
      rw [wp_bind, wp_modifyCtx]
      simp only [List.nil_append]
      refine wp_bind_of ((Blame.ensureToken sc).run _) (fun es₁ token s₁ _ => ?_) fun es₁ rc s₁ howned => ?_
      · unfold makeBearer
        simp only [Cmd.bind_assoc, Cmd.pure_bind]
        refine wp_bind_of (Blame.need.run s₁) (fun es₂ _ s₂ _ => ?_) fun es₂ rc s₂ howned => ?_
        · rw [← hs]
          apply wp_based_dispatch
          intro a es₃ he
          cases a with
          | done resp' =>
            refine wp_mono (hjudge es₃ resp' s₂ he) fun es₄ r s₃ hb => ?_
            exact hb.later.later.later
          | failed why expired detail =>
            dsimp only
            rw [ctxFail_bind]
            exact wp_ctxFail_of fun es₄ d _ _ _ => .not_telling (send_not_telling why)
        · exact (Based.owned (howned rc rfl)).later.later
      · exact (Based.owned (howned rc rfl)).later
    · simp only [h401, ne_eq, not_false_eq_true, ↓reduceIte]
      exact hjudge es resp s h

theorem wp_based_finish {a : Answer} {s : Ctx} {es : List Event} (h : c.Ended es) :
    wp (requireDone c.path a >>= fun resp => retryAuth (ensureToken cfg)
      (fun bearer => doSend cfg c.scope c.method c.path c.body bearer c.ov true) c.path c.scope resp >>=
        judge c.path) (fun es' r s' => c.Based (es ++ es') r s') s := by
  cases a with
  | done resp => exact wp_based_retry h
  | failed why expired detail =>
    change wp (sendFailed c.path why expired detail >>= _) _ s
    rw [sendFailed_bind]
    exact wp_sendFailed_of fun d _ _ => .not_telling (send_not_telling why)

theorem wp_based_exchange {bearer : Option Bytes} {s : Ctx} :
    wp (exchangeWith cfg (ensureToken cfg) (recoveryCheckin cfg) c.method c.path c.body c.scope c.ov bearer)
      c.Based s := by
  apply wp_based_dispatch
  intro a es he
  unfold recoverCert
  simp only [Cmd.bind_assoc]
  rw [wp_bind, wp_getCtx]
  simp only [List.nil_append]
  cases a with
  | done resp => exact wp_based_finish he
  | failed why expired detail =>
    cases expired with
    | false => exact wp_based_finish he
    | true =>
      dsimp only
      split
      · exact wp_based_finish he
      · simp only [Cmd.bind_assoc]
        rw [wp_bind, wp_attempt]
        intro check crc s₁ _
        cases crc with
        | error rc =>
          simp only [Cmd.bind_assoc, throwRc_bind, wp_bind, wp_record, wp_modifyCtx, wp_throwRc]
          exact fun copied => .not_telling (send_not_telling why)
        | ok u =>
          simp only [Cmd.bind_assoc]
          apply wp_based_dispatch
          intro b es₁ he₁
          cases b with
          | done resp =>
            simp only [Cmd.bind_assoc]
            rw [wp_bind, wp_modifyCtx]
            refine wp_mono (wp_based_finish he₁) fun es₂ r s₂ hb => ?_
            exact hb.later.later
          | failed why' expired' detail' =>
            cases expired' with
            | false =>
              refine wp_mono (wp_based_finish he₁) fun es₂ r s₂ hb => ?_
              exact hb.later.later
            | true =>
              simp only [Cmd.bind_assoc, throwRc_bind, wp_bind, wp_record, wp_modifyCtx, wp_throwRc]
              exact fun copied => .not_telling (send_not_telling why)

/-- A request succeeds on a final answer only, and where it fails in a way that may be taken for something else, it
is on that answer or on what the token engine was told. -/
theorem wp_based_request {s : Ctx} : wp (requestRaw cfg c.method c.path c.body c.scope c.ov) c.Based s := by
  have harg : ¬Rc.arg.Telling := by simp [Rc.Telling]
  unfold requestRaw requestRawWith
  split
  · exact wp_ctxFail_of fun _ _ _ _ _ => .not_telling harg
  · have hbearer : Blame.Sound (acquireBearer (ensureToken cfg) c.scope) := by
      cases c.scope with
      | none => exact .pure rfl
      | some sc =>
        exact .bind (Blame.ensureToken sc) fun _ => .bind (.bind Blame.need fun _ => .pure rfl) fun _ => .pure rfl
    refine wp_bind_of (hbearer.run s) (fun es bearer s₁ _ => ?_) fun es rc s₁ howned => .owned (howned rc rfl)
    exact wp_mono wp_based_exchange fun _ _ _ h => h.later

end Call

/-- Nothing is dispatched and no clock is read. -/
def Unheard (es : List Event) : Prop := ∀ e ∈ es, e.sent = none ∧ e.op.clock = false

theorem Unheard.silent {es : List Event} (h : Unheard es) {c : Call} : ∀ e ∈ es, c.Silent e := by
  intro e he
  obtain ⟨op, ans⟩ := e
  cases op with
  | send scope req => cases (h _ he).1
  | _ => rfl

theorem Call.Final.later {c : Call} {es es' : List Event} {a : Answer} (h : c.Final es' a) : c.Final (es ++ es') a := by
  obtain ⟨pre, post, scope, req, rfl, hrest⟩ := h
  exact ⟨es ++ pre, post, scope, req, by simp, hrest⟩

theorem Call.Final.unheard {c : Call} {es es' : List Event} {a : Answer} (h : c.Final es a) (hu : Unheard es') :
    c.Final (es ++ es') a := by
  obtain ⟨pre, post, scope, req, rfl, hs, hr⟩ := h
  refine ⟨pre, post ++ es', scope, req, by simp, hs, fun e he => ?_⟩
  rcases List.mem_append.mp he with he | he
  · exact hr e he
  · exact ⟨hu.silent e he, (hu e he).2⟩

/-- The last dispatch is the token engine's own, and the answer to it is behind the failure. -/
def Misled (es : List Event) (rc : Rc) : Prop :=
  ∃ req r, latest Event.sent es = some (none, req, .done r) ∧ req.OfEngine ∧ r.Behind rc

theorem Misread.misled {es : List Event} {rc : Rc} (h : Misread es rc) : Misled es rc := by
  obtain ⟨req, r, hl, hrest⟩ := h
  refine ⟨req, r, latest_of_latest Event.loud_self ?_ (lastDone_eq.mp hl) rfl, hrest⟩
  intro e he
  obtain ⟨op, ans⟩ := e
  cases op with
  | send scope req => cases he
  | _ => rfl

theorem Misled.later {es es' : List Event} {rc : Rc} (h : Misled es' rc) : Misled (es ++ es') rc := by
  obtain ⟨req, r, hl, hrest⟩ := h
  exact ⟨req, r, latest_append_some hl, hrest⟩

theorem Misled.unheard {es es' : List Event} {rc : Rc} (h : Misled es rc) (hu : Unheard es') : Misled (es ++ es') rc := by
  obtain ⟨req, r, hl, hrest⟩ := h
  exact ⟨req, r, by rw [latest_append_none fun e he => (hu e he).1]; exact hl, hrest⟩

/-- How a call reads the final response to its own request: as it should, or else by a mistake. -/
structure Outlook where
  good : Response → Prop
  other : List Event → Prop
  later : ∀ {es es' : List Event}, other es' → other (es ++ es')
  unheard : ∀ {es es' : List Event}, other es → Unheard es' → other (es ++ es')

/-- The call says what the response says, and it says so of nothing else but by mistake. -/
structure Reads (R : Outlook) (c : Call) (es : List Event) (p : Prop) : Prop where
  sound : p → (∃ resp, c.Final es (.done resp) ∧ R.good resp) ∨ R.other es
  complete : ∀ resp, c.Final es (.done resp) → R.good resp → p

namespace Reads
variable {R : Outlook} {c : Call} {es es' : List Event} {p : Prop}

theorem silent (h : ∀ e ∈ es, c.Silent e) (hp : ¬p) : Reads R c es p :=
  ⟨fun hh => absurd hh hp, fun _ hf => absurd h hf.not_silent⟩

theorem before (h : Reads R c es' p) (hs : ∀ e ∈ es, c.Silent e) : Reads R c (es ++ es') p := by
  refine ⟨fun hp => ?_, fun resp hf => h.complete resp (hf.right hs)⟩
  rcases h.sound hp with ⟨resp, hf, hg⟩ | ho
  · exact .inl ⟨resp, hf.later, hg⟩
  · exact .inr (R.later ho)

theorem after (h : Reads R c es p) (hu : Unheard es') : Reads R c (es ++ es') p := by
  refine ⟨fun hp => ?_, fun resp hf => ?_⟩
  · rcases h.sound hp with ⟨resp, hf, hg⟩ | ho
    · exact .inl ⟨resp, hf.unheard hu, hg⟩
    · exact .inr (R.unheard ho hu)
  · apply h.complete resp
    obtain ⟨pre, post, scope, req, he, hs, hr⟩ := hf
    rcases split_append he with ⟨mid, rfl, rfl⟩ | ⟨mid, rfl, rfl⟩
    · exact ⟨pre, mid, scope, req, rfl, hs, hr.left⟩
    · have := Call.silent_not_sent (c := c) (hu.silent _ (List.mem_append_right mid List.mem_cons_self))
      simp [hs] at this

theorem congr {q : Prop} (h : Reads R c es p) (hpq : p ↔ q) : Reads R c es q := by
  rw [← hpq]
  exact h

end Reads

/-- In every run the command says what the final response to the call's request says. -/
def Heeds (R : Outlook) (c : Call) {α : Type} (tell : Except Rc α → Prop) (x : Cmd α) : Prop :=
  ∀ s, wp x (fun es r _ => Reads R c es (tell r)) s

namespace Heeds
variable {R : Outlook} {c : Call} {α β : Type} {tell : Except Rc β → Prop} {x : Cmd α} {f : α → Cmd β}

/-- A failure that is none of the call's request. -/
theorem fails {y : Cmd β} (hq : Quiet y) (he : Throws y fun rc => ¬tell (.error rc))
    (hy : Yields y fun _ => False) : Heeds R c tell y := by
  refine fun s => wp_mono (wp_and (wp_and (hq.run s) (he.run s)) (hy.run s)) fun es r s' h => ?_
  apply Reads.silent (Call.silent_calm h.1.1)
  cases r with
  | ok b => exact (h.2 b rfl).elim
  | error rc => exact h.1.2 rc rfl

theorem bind_yields {V : α → Prop} (hq : Quiet x) (he : Throws x fun rc => ¬tell (.error rc)) (hv : Yields x V)
    (hf : ∀ a, V a → Heeds R c tell (f a)) : Heeds R c tell (x >>= f) := by
  refine fun s => wp_bind_of (wp_and (wp_and (hq.run s) (he.run s)) (hv.run s)) ?_ ?_
  · intro es a s₁ h
    exact wp_mono (hf a (h.2 a rfl) s₁) fun es' r s₂ h' => h'.before (Call.silent_calm h.1.1)
  · intro es rc s₁ h
    exact .silent (Call.silent_calm h.1.1) (h.1.2 rc rfl)

theorem bind (hq : Quiet x) (he : Throws x fun rc => ¬tell (.error rc)) (hf : ∀ a, Heeds R c tell (f a)) :
    Heeds R c tell (x >>= f) :=
  bind_yields (V := fun _ => True) hq he ⟨fun _ _ _ _ _ _ _ => trivial⟩ fun a _ => hf a

/-- What is made of the outcome without a further dispatch. -/
theorem concludes {first : Except Rc α → Prop} (hx : Heeds R c first x) (he : ∀ rc, first (.error rc) ↔ tell (.error rc))
    (hf : ∀ a s, wp (f a) (fun es r _ => Unheard es ∧ (first (.ok a) ↔ tell r)) s) : Heeds R c tell (x >>= f) := by
  refine fun s => wp_bind_of (hx s) ?_ ?_
  · intro es a s₁ h
    exact wp_mono (hf a s₁) fun es' r s₂ h' => (h.after h'.1).congr h'.2
  · exact fun es rc s₁ h => h.congr (he rc)

theorem ite {p : Prop} [Decidable p] {x y : Cmd β} (hx : p → Heeds R c tell x) (hy : ¬p → Heeds R c tell y) :
    Heeds R c tell (if p then x else y) := by
  split
  · exact hx ‹_›
  · exact hy ‹_›

end Heeds

/-- A response that is taken for a success without a value. -/
def Response.Passes (r : Response) : Prop := r.fault = none ∨ r.status = 200

/-- An empty 200 counts, and so does any 2xx with a body. -/
def emptySuccess : Outlook where
  good := Response.Passes
  other es := Misled es .protocol
  later := Misled.later
  unheard := Misled.unheard

/-- What is told of the outcome of a request, where it goes by the final answer alone or by such a failure. -/
structure Telltale (R : Outlook) (told : Except Rc Bytes → Ctx → Prop) : Prop where
  judged : ∀ {resp r s}, Call.Judged (.done resp) r s → (told r s ↔ R.good resp)
  mistakable : ∀ {rc s}, told (.error rc) s → Mistakable rc s.lastError.httpStatus
  other : ∀ {es rc s}, told (.error rc) s → Misread es rc ∨ Unready es rc → R.other es

theorem wp_told_request {cfg : Config} {c : Call} {R : Outlook} {told : Except Rc Bytes → Ctx → Prop} {s : Ctx}
    (ht : Telltale R told) :
    wp (requestRaw cfg c.method c.path c.body c.scope c.ov) (fun es r s' => Reads R c es (told r s')) s := by
  refine wp_mono (wp_and Call.wp_based_request Call.wp_closes_request) fun es r s' h => ?_
  obtain ⟨hb, hc⟩ := h
  have hfinal : ∀ a, c.Final es a → Call.Judged a r s' := hc
  refine ⟨fun hp => ?_, fun resp hf hg => (ht.judged (hfinal _ hf)).mpr hg⟩
  have hended : c.Ended es → ∃ resp, c.Final es (.done resp) ∧ R.good resp := by
    intro he
    obtain ⟨a, hf⟩ := he
    have hj := hfinal a hf
    cases a with
    | done resp => exact ⟨resp, hf, (ht.judged hj).mp hp⟩
    | failed why expired detail =>
      -- the code of a transport failure is never taken for anything else
      obtain ⟨w, rfl, -⟩ := hj
      exact absurd (ht.mistakable hp).telling (send_not_telling w)
  cases r with
  | ok b => exact .inl (hended (hb.succeeded b rfl))
  | error rc =>
    rcases hb.failed rc rfl (ht.mistakable hp) with he | hm
    · exact .inl (hended he)
    · exact .inr (ht.other hp hm)

theorem judged_none {resp : Response} {r : Except Rc Bytes} {s : Ctx} (h : Call.Judged (.done resp) r s)
    (hf : resp.fault = none) : ∃ b, r = .ok b := by
  simpa only [Call.Judged, hf] using h

theorem judged_some {resp : Response} {r : Except Rc Bytes} {s : Ctx} {rc : Rc} (h : Call.Judged (.done resp) r s)
    (hf : resp.fault = some rc) : r = .error rc ∧ s.lastError.httpStatus = resp.status := by
  simpa only [Call.Judged, hf] using h

theorem fault_none_passed {resp : Response} (h : resp.fault = none) : 200 ≤ resp.status ∧ resp.status < 300 := by
  rcases fault_cases resp with ⟨-, hl, hr, -⟩ | ⟨hf, -⟩ | ⟨hf, -⟩
  · exact ⟨hl, hr⟩
  · rw [h] at hf
    cases hf
  · rw [h] at hf
    cases hf

theorem fault_mapped {resp : Response} {rc : Rc} (h : resp.fault = some rc) (hs : resp.status < 200 ∨ 300 ≤ resp.status) :
    rc = mapHttpStatus resp.status := by
  rcases fault_cases resp with ⟨-, hl, hr, -⟩ | ⟨-, hl, hr, -⟩ | ⟨hf, -⟩
  · omega
  · omega
  · exact Option.some.inj (h.symm.trans hf)

/-- A protocol failure with a 200 is that of an empty response. -/
theorem emptyOk_protocol {rc : Rc} {status : Int} (h : Api.emptyOk (.error rc) status = .ok ()) :
    rc = .protocol ∧ status = 200 := by
  by_cases hrc : rc = .protocol
  · subst hrc
    simpa [Api.emptyOk] using h
  · rw [emptyOk_error hrc] at h
    cases h

theorem emptySuccess_telling :
    Telltale emptySuccess fun r s => Api.emptyOk r s.lastError.httpStatus = .ok () where
  judged {resp r s} h := by
    cases hfault : resp.fault with
    | none =>
      obtain ⟨b, rfl⟩ := judged_none h hfault
      exact iff_of_true rfl (.inl hfault)
    | some rc =>
      obtain ⟨rfl, hs⟩ := judged_some h hfault
      constructor
      · exact fun hok => .inr (hs.symm.trans (emptyOk_protocol hok).2)
      · intro hpass
        have h200 : resp.status = 200 := hpass.resolve_left fun hn => by simp [hn] at hfault
        have hrc : rc = .protocol := by
          rcases fault_cases resp with ⟨hf, -⟩ | ⟨hf, -⟩ | ⟨-, hr⟩
          · rw [hf] at hfault
            cases hfault
          · exact (Option.some.inj (hf.symm.trans hfault)).symm
          · omega
        simp [Api.emptyOk, hrc, hs, h200]
  mistakable h := .inl (emptyOk_protocol h)
  other {es rc s} h hm := by
    obtain ⟨rfl, -⟩ := emptyOk_protocol h
    rcases hm with hm | ⟨hn, -⟩
    · exact hm.misled
    · cases hn

/-- What a request comes to whose success may be empty. -/
theorem heeds_requestEmpty {cfg : Config} {c : Call} {path : Bytes} (hp : c.path = lit "/api/" ++ path)
    (ho : c.ov = .default) :
    Heeds emptySuccess c (· = .ok (.ok ())) (Api.requestEmpty c.method path c.body c.scope : Api cfg (Except Rc Unit)).cmd := by
  intro s
  change wp ((EncedoHem.requestRaw cfg c.method (lit "/api/" ++ path) c.body c.scope .default).attempt >>= fun r =>
    getCtx >>= fun s => pure (Api.emptyOk r s.lastError.httpStatus)) _ s
  rw [← hp, ← ho, wp_bind, wp_attempt]
  refine wp_mono (wp_told_request emptySuccess_telling) fun es r s' h => ?_
  dsimp only
  rw [wp_bind, wp_getCtx]
  dsimp only
  rw [wp_pure, List.append_nil, List.append_nil]
  exact h.congr (by simp)

end EncedoHem
