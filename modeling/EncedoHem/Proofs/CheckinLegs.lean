import EncedoHem.Lib.Blind
import EncedoHem.Proofs.Neutral
import EncedoHem.Proofs.Trace

namespace EncedoHem
open Text Dialogue

/-- The events that leave a trace outside: dispatches and marks. -/
def Event.loud : Event → Option Event
  | ⟨.send scope req, a⟩ => some ⟨.send scope req, a⟩
  | ⟨.mark m, a⟩ => some ⟨.mark m, a⟩
  | _ => none

def Event.isMark (e : Event) : Bool :=
  match e.op with
  | .mark _ => true
  | _ => false

/-- The last dispatch or mark, when it is an answered dispatch under no scope. -/
def lastDone (es : List Event) : Option (Request × Response) :=
  match latest Event.loud es with
  | some ⟨.send none req, .done r⟩ => some (req, r)
  | _ => none

def Calm (es : List Event) : Prop := ∀ e ∈ es, e.op.quiet = true

theorem Event.loud_of_quiet {e : Event} (h : e.op.quiet = true) : e.loud = none := by
  obtain ⟨op, ans⟩ := e
  cases op with
  | send scope req => exact absurd h Bool.false_ne_true
  | mark m => exact absurd h Bool.false_ne_true
  | _ => rfl

namespace Calm

theorem nil : Calm [] := fun _ he => absurd he List.not_mem_nil

theorem append {es es' : List Event} (h : Calm es) (h' : Calm es') : Calm (es ++ es') := by
  intro e he
  rcases List.mem_append.mp he with he | he
  · exact h e he
  · exact h' e he

theorem record (payload : Option Bytes) (copied : Bool) : Calm (recordEvents payload copied) := by
  cases payload with
  | none => exact nil
  | some p => exact fun e he => by rw [List.mem_singleton.mp he]; rfl

theorem pause (cfg : Config) : Calm (pause cfg) := by
  unfold EncedoHem.pause
  split
  · exact nil
  · exact fun e he => by rw [List.mem_singleton.mp he]; rfl

theorem latest {es es' : List Event} (h : Calm es') :
    latest Event.loud (es ++ es') = latest Event.loud es :=
  latest_append_none fun e he => Event.loud_of_quiet (h e he)

theorem lastDone {es es' : List Event} (h : Calm es') : lastDone (es ++ es') = lastDone es := by
  unfold EncedoHem.lastDone
  rw [h.latest]

end Calm

/-- Only the error detail and the memory of a certificate recovery may differ. -/
structure Ctx.Untouched (s s' : Ctx) : Prop where
  auth : s'.auth = s.auth
  inCheckin : s'.inCheckin = s.inCheckin
  latch : s'.checkinOnLoginDone = s.checkinOnLoginDone
  handles : s'.handles = s.handles

namespace Ctx.Untouched

theorem refl (s : Ctx) : s.Untouched s := ⟨rfl, rfl, rfl, rfl⟩

theorem trans {s s' s'' : Ctx} (h : s.Untouched s') (h' : s'.Untouched s'') : s.Untouched s'' :=
  ⟨h'.auth.trans h.auth, h'.inCheckin.trans h.inCheckin, h'.latch.trans h.latch,
    h'.handles.trans h.handles⟩

theorem setError {s s' : Ctx} (h : s.Untouched s') (d : ErrorDetail) : s.Untouched (s'.setError d) :=
  ⟨h.auth, h.inCheckin, h.latch, h.handles⟩

theorem refreshed {s s' : Ctx} (h : s.Untouched s') (b : Bool) :
    s.Untouched { s' with certRefreshed := b } := ⟨h.auth, h.inCheckin, h.latch, h.handles⟩

end Ctx.Untouched

/-- What a completed response fails with, if it does: an HTTP status outside of the
2xx range, or no body. -/
def Response.fault (r : Response) : Option Rc :=
  if r.status < 200 ∨ 300 ≤ r.status then some (mapHttpStatus r.status)
  else match r.body with
    | none => some .protocol
    | some [] => some .protocol
    | some _ => none

/-- The record of a failure that no expired certificate was the cause of. -/
structure ErrorDetail.Says (d : ErrorDetail) (status : Int) : Prop where
  status : d.httpStatus = status
  unexpired : d.tlsExpired = false

/-- A failure that the transport reports. -/
def Rc.ofTransport (rc : Rc) : Prop := ∃ why : SendFailure, rc = why.rc

section
variable {path : Bytes} {r : Response} {s : Ctx} {Q : List Event → Except Rc Bytes → Ctx → Prop}

theorem wp_judge_of (hok : ∀ b, r.fault = none → r.body = some b → Q [] (.ok (cstr b)) s)
    (herr : ∀ rc es d, r.fault = some rc → Calm es → d.Says r.status →
      Q es (.error rc) (s.setError d)) : wp (judge path r) Q s := by
  unfold judge
  rw [wp_ite]
  split
  · rename_i hs
    rw [wp_ctxFail]
    intro copied
    exact herr _ _ _ (if_pos hs) (.record _ _) ⟨rfl, rfl⟩
  · rename_i hs
    have hf : r.fault = match r.body with
        | none => some .protocol
        | some [] => some .protocol
        | some _ => none := if_neg hs
    split
    · rename_i hb
      rw [wp_ctxFail]
      exact fun copied => herr _ _ _ (by rw [hf, hb]) (.record _ _) ⟨rfl, rfl⟩
    · rename_i hb
      rw [wp_ctxFail]
      exact fun copied => herr _ _ _ (by rw [hf, hb]) (.record _ _) ⟨rfl, rfl⟩
    · rename_i b hb hne
      rw [wp_pure]
      refine hok b ?_ hne
      rw [hf, hne]
      cases b with
      | nil => exact absurd rfl hb
      | cons x xs => rfl

end

section
variable {α : Type} {s : Ctx} {Q : List Event → Except Rc α → Ctx → Prop}

theorem wp_ctxFail_of {rc : Rc} {status : Int} {payload : Option Bytes} {fmt : List Piece}
    (h : ∀ es d, Calm es → d.httpStatus = status → d.tlsExpired = false →
      Q es (.error rc) (s.setError d)) : wp (ctxFail rc status payload fmt) Q s :=
  wp_ctxFail.mpr fun copied => h _ _ (.record _ copied) rfl rfl

theorem wp_sendFailed_of {path detail : Bytes} {why : SendFailure} {expired : Bool}
    (h : ∀ d, d.httpStatus = 0 → d.tlsExpired = expired → Q [] (.error why.rc) (s.setError d)) :
    wp (sendFailed path why expired detail) Q s := by
  simp only [sendFailed, wp_bind, wp_record, wp_modifyCtx, wp_throwRc]
  exact fun _ => h _ rfl rfl

theorem wp_need_of {Q : List Event → Except Rc Unit → Ctx → Prop} (hok : ∀ es, Calm es → Q es (.ok ()) s)
    (herr : ∀ es d, Calm es → d.Says 0 → Q es (.error .nomem) (s.setError d)) : wp need Q s := by
  have halloc : ∀ ok : Bool, Calm [⟨.alloc, ok⟩] := fun ok e he => by rw [List.mem_singleton.mp he]; rfl
  simp only [need, wp_bind, wp_alloc, wp_ite, wp_pure]
  intro ok
  split
  · exact hok _ (halloc ok)
  · exact wp_ctxFail_of fun es d hc hd he => herr _ d ((halloc ok).append hc) ⟨hd, he⟩

end

/-- Where the command succeeds, the error detail is what it was before. -/
structure Spares {α : Type} (x : Cmd α) : Prop where
  run : ∀ s, wp x (fun _ r s' => ∀ a, r = .ok a → s'.lastError = s.lastError) s

namespace Spares
variable {α β : Type} {x : Cmd α} {f : α → Cmd β}

theorem pure (a : α) : Spares (Pure.pure a : Cmd α) := ⟨fun _ => wp_pure.mpr fun _ _ => rfl⟩

theorem throw (rc : Rc) : Spares (throwRc rc : Cmd α) := ⟨fun _ => wp_throwRc.mpr fun _ h => nomatch h⟩

theorem get : Spares getCtx := ⟨fun _ => wp_getCtx.mpr fun _ _ => rfl⟩

theorem ask (i : Op) : Spares (ask i) := ⟨fun _ => wp_ask.mpr fun _ _ _ => rfl⟩

theorem bind (hx : Spares x) (hf : ∀ a, Spares (f a)) : Spares (x >>= f) := by
  refine ⟨fun s => wp_bind_of (hx.run s) ?_ fun es e s' _ a h => nomatch h⟩
  intro es a s' h
  refine wp_mono ((hf a).run s') fun es' r s'' h' b hb => ?_
  rw [h' b hb, h a rfl]

theorem ite {c : Prop} [Decidable c] {y : Cmd α} (hx : c → Spares x) (hy : ¬c → Spares y) :
    Spares (if c then x else y) := by
  split
  · exact hx ‹_›
  · exact hy ‹_›

theorem ctxFail (rc : Rc) (status : Int) (payload : Option Bytes) (fmt : List Piece) :
    Spares (ctxFail rc status payload fmt : Cmd α) :=
  ⟨fun _ => wp_ctxFail_of fun _ _ _ _ _ _ h => nomatch h⟩

theorem need : Spares need :=
  .bind (ask _) fun _ => .ite (fun _ => .pure _) fun _ => .ctxFail ..

theorem parseJson (b : Bytes) : Spares (parseJson b) := .bind (ask _) fun _ => .pure _

theorem printObject (ms : List (Bytes × Json)) : Spares (printObject ms) :=
  .bind need fun _ => .pure _

theorem optStr (root : Json) (key : Bytes) : Spares (optStr root key) := by
  unfold EncedoHem.optStr
  split
  · exact .pure _
  · exact .bind need fun _ => .pure _

theorem judge (path : Bytes) (r : Response) : Spares (judge path r) :=
  ⟨fun _ => wp_judge_of (fun _ _ _ _ _ => rfl) fun _ _ _ _ _ _ _ h => nomatch h⟩

theorem parseBody (path body : Bytes) : Spares (parseBody path body) := by
  refine .bind (parseJson _) fun root => ?_
  split
  · exact .ctxFail ..
  · exact .ite (fun _ => .pure _) fun _ => .ctxFail ..

theorem doSend (cfg : Config) (scope : Option Bytes) (method : Method) (path : Bytes)
    (jsonBody bearer : Option Bytes) (ov : TlsOverride) (fresh : Bool) :
    Spares (doSend cfg scope method path jsonBody bearer ov fresh) :=
  .bind (.ite (fun _ => .pure _) fun _ => ask _) fun _ => ask _

theorem requireDone (path : Bytes) (a : Answer) : Spares (requireDone path a) := by
  cases a with
  | done r => exact .pure r
  | failed why expired detail => exact ⟨fun _ => wp_sendFailed_of fun _ _ _ _ h => nomatch h⟩

/-- A request that is overridden, without a scope, has no recovery to run. -/
theorem leg {cfg : Config} {method : Method} {path : Bytes} {jsonBody : Option Bytes}
    {ov : TlsOverride} (ho : ov ≠ .default) : Spares (leg cfg method path jsonBody ov) := by
  have hr : ∀ {checkin : Cmd Unit} {resend : Cmd Answer} {a : Answer},
      Spares (recoverCert cfg checkin resend path ov a) := by
    intro checkin resend a
    refine .bind get fun s => ?_
    split
    · exact .ite (fun _ => .pure _) fun hg => absurd (fun h => hg (.inr (.inr h))) (by simpa using ho)
    · exact .pure _
  refine .ite (fun _ => .ctxFail ..) fun _ => .bind (.pure _) fun bearer => ?_
  refine .bind (.doSend ..) fun a => .bind hr fun a => .bind (requireDone ..) fun r => ?_
  exact .bind (.pure _) fun r => .judge ..

theorem checkinLegs (cfg : Config) : Spares (checkinLegs cfg true) := by
  have hrelax : deviceOverride true ≠ .default := by decide
  have hverify : TlsOverride.verify ≠ .default := by decide
  exact .bind (leg hrelax) fun _ => .bind (leg hverify) fun _ => .bind (leg hrelax) fun _ =>
    .bind (parseBody ..) fun _ => .pure _

end Spares

/-- What happens inside a check-in: nothing that its legs do is made under a scope,
goes by the context's own verification, leaves a mark or reads a clock. -/
def LegEvent : Event → Prop
  | ⟨.send scope req, _⟩ => scope = none ∧ req.tlsOverride ≠ .default
  | ⟨op, _⟩ => op.quiet = true

def legs : Contract Op Ans Ctx where
  rel s es s' := (∀ e ∈ es, LegEvent e) ∧ s.Untouched s'
  refl s := ⟨fun _ he => absurd he List.not_mem_nil, .refl s⟩
  trans h h' := by
    refine ⟨fun e he => ?_, h.2.trans h'.2⟩
    rcases List.mem_append.mp he with he | he
    · exact h.1 e he
    · exact h'.1 e he

theorem legs_single {s : Ctx} {e : Event} (h : LegEvent e) : legs.rel s [e] s :=
  ⟨fun _ hd => List.mem_singleton.mp hd ▸ h, .refl s⟩

theorem legs_neutral : Neutral legs where
  quiet s e he := legs_single (by
    obtain ⟨op, ans⟩ := e
    cases op with
    | send scope req => exact absurd he Bool.false_ne_true
    | _ => exact he)
  error s d := ⟨fun _ he => absurd he List.not_mem_nil, (Ctx.Untouched.refl s).setError d⟩

theorem legs_checkinLegs (cfg : Config) : Keeps legs (checkinLegs cfg true) := by
  have hrelax : TlsOverride.relax ≠ .default := by decide
  have hverify : TlsOverride.verify ≠ .default := by decide
  exact legs_neutral.checkinLegs
    (fun s => ⟨fun _ he => absurd he List.not_mem_nil, (Ctx.Untouched.refl s).refreshed true⟩)
    (fun _ _ _ => legs_single ⟨rfl, hrelax⟩) (fun _ _ _ _ => legs_single ⟨rfl, hverify⟩)
    (fun _ _ _ _ => legs_single ⟨rfl, hrelax⟩)

/-- The answer to the last dispatch. -/
def lastAnswer (es : List Event) : Option Answer := (latest Event.sent es).map (·.2.2)

def Answer.isExpired : Answer → Bool
  | .failed _ expired _ => expired
  | .done _ => false

/-- The status that goes on record when a request fails after the answer. -/
def Answer.faultStatus : Answer → Int
  | .done r => if r.fault.isSome then r.status else 0
  | .failed _ _ _ => 0

/-- What is on record is what the last of the dispatches came to. -/
structure Recorded (es : List Event) (d : ErrorDetail) : Prop where
  status : d.httpStatus = ((lastAnswer es).map Answer.faultStatus).getD 0
  expired : d.tlsExpired = (lastAnswer es).any Answer.isExpired

theorem lastAnswer_unsent {es es' : List Event} (h : ∀ e ∈ es', e.sent = none) :
    lastAnswer (es ++ es') = lastAnswer es := by
  unfold lastAnswer
  rw [latest_append_none h]

theorem Calm.lastAnswer {es es' : List Event} (h : Calm es') : lastAnswer (es ++ es') = lastAnswer es := by
  refine lastAnswer_unsent fun e he => ?_
  have hq := h e he
  obtain ⟨op, ans⟩ := e
  cases op with
  | send scope req => exact absurd hq Bool.false_ne_true
  | _ => rfl

theorem lastAnswer_send (es : List Event) (scope : Option Bytes) (req : Request) (a : Answer) :
    lastAnswer (es ++ [⟨.send scope req, a⟩]) = some a := by
  unfold lastAnswer
  rw [latest_append_some (b := (scope, req, a)) rfl]
  rfl

namespace Recorded

theorem quiet {es : List Event} {d : ErrorDetail} (h : Calm es) (hs : d.httpStatus = 0)
    (he : d.tlsExpired = false) : Recorded es d := by
  have hn : lastAnswer es = none := (List.nil_append es ▸ h.lastAnswer : lastAnswer es = lastAnswer [])
  exact ⟨by rw [hn]; exact hs, by rw [hn]; exact he⟩

/-- After dispatches that leave nothing to record it is the later ones that count. -/
theorem append {es es' : List Event} {d : ErrorDetail} (h : Recorded es .clear) (h' : Recorded es' d) :
    Recorded (es ++ es') d := by
  have happ : lastAnswer (es ++ es') = (lastAnswer es').or (lastAnswer es) := by
    unfold lastAnswer
    rw [latest_append]
    cases latest Event.sent es' with
    | none => rfl
    | some a => rfl
  obtain ⟨hs, he⟩ := h'
  cases hl : lastAnswer es' with
  | none =>
    rw [hl] at hs he happ
    rw [Option.none_or] at happ
    exact ⟨by rw [happ, ← h.status]; exact hs, by rw [happ, ← h.expired]; exact he⟩
  | some a =>
    rw [hl] at hs he happ
    exact ⟨by rw [happ]; exact hs, by rw [happ]; exact he⟩

end Recorded

/-- A command that fails leaves on record what the last of its dispatches came to; one that
succeeds has had nothing to record. -/
structure Tells {α : Type} (x : Cmd α) : Prop where
  run : ∀ s, wp x (fun es r s' => Recorded es (match r with
    | .ok _ => .clear
    | .error _ => s'.lastError)) s

namespace Tells
variable {α β : Type} {x : Cmd α} {f : α → Cmd β}

theorem pure (a : α) : Tells (Pure.pure a : Cmd α) := ⟨fun _ => wp_pure.mpr (.quiet .nil rfl rfl)⟩

theorem bind (hx : Tells x) (hf : ∀ a, Tells (f a)) : Tells (x >>= f) :=
  ⟨fun s => wp_bind_of (hx.run s) (fun _ a s' h => wp_mono ((hf a).run s') fun _ _ _ h' => h.append h')
    fun _ _ _ h => h⟩

theorem ite {c : Prop} [Decidable c] {y : Cmd α} (hx : c → Tells x) (hy : ¬c → Tells y) :
    Tells (if c then x else y) := by
  split
  · exact hx ‹_›
  · exact hy ‹_›

theorem ctxFail (rc : Rc) (payload : Option Bytes) (fmt : List Piece) :
    Tells (ctxFail rc 0 payload fmt : Cmd α) :=
  ⟨fun _ => wp_ctxFail_of fun _ _ hc hd he => .quiet hc hd he⟩

theorem ask {i : Op} (hi : i.quiet = true) : Tells (ask i) :=
  ⟨fun _ => wp_ask.mpr fun _ => .quiet (fun _ he => List.mem_singleton.mp he ▸ hi) rfl rfl⟩

theorem parseBody (path body : Bytes) : Tells (parseBody path body) := by
  refine .bind (.bind (ask rfl) fun _ => .pure _) fun root => ?_
  split
  · exact .ctxFail ..
  · exact .ite (fun _ => .pure _) fun _ => .ctxFail ..

end Tells

/-- A request that is not verified as the context says has no certificate recovery. -/
theorem wp_recoverCert_override {cfg : Config} {checkin : Cmd Unit} {resend : Cmd Answer} {path : Bytes}
    {ov : TlsOverride} (ho : ov ≠ .default) {a : Answer} {s : Ctx}
    {Q : List Event → Except Rc Answer → Ctx → Prop} :
    wp (recoverCert cfg checkin resend path ov a) Q s ↔ Q [] (.ok a) s := by
  unfold recoverCert
  rw [wp_bind, wp_getCtx]
  dsimp only
  split
  · rw [if_pos (.inr (.inr ho)), wp_pure]
    rfl
  · rw [wp_pure]
    rfl

theorem Tells.leg {cfg : Config} {method : Method} {path : Bytes} {jsonBody : Option Bytes}
    {ov : TlsOverride} (ho : ov ≠ .default) : Tells (leg cfg method path jsonBody ov) := by
  refine .ite (fun _ => .ctxFail ..) fun _ => ⟨fun s => ?_⟩
  show wp (exchangeWith cfg (fun _ => throwRc .arg) (throwRc .arg) method path jsonBody none ov none) _ s
  unfold exchangeWith
  rw [wp_bind, wp_doSend]
  intro a
  dsimp only
  rw [wp_bind, wp_recoverCert_override ho]
  have hlast := lastAnswer_send (pause cfg) none (buildRequest cfg method path jsonBody none ov false) a
  cases a with
  | failed why expired detail =>
    show wp (sendFailed path why expired detail >>= _) _ s
    rw [sendFailed_bind]
    refine wp_sendFailed_of fun d hd he => ?_
    simp only [List.append_nil]
    exact ⟨by rw [hlast]; exact hd, by rw [hlast]; exact he⟩
  | done r =>
    show wp (judge path r) _ s
    refine wp_judge_of (fun b hf _ => ?_) fun rc es d hf hc hd => ?_
    · simp only [List.append_nil]
      refine ⟨?_, by rw [hlast]; rfl⟩
      rw [hlast]
      show (0 : Int) = if r.fault.isSome then r.status else 0
      rw [hf]
      rfl
    · have hall : lastAnswer (pause cfg ++ [⟨.send none (buildRequest cfg method path jsonBody none ov false),
          .done r⟩] ++ ([] ++ es)) = some (.done r) := by
        rw [List.nil_append, hc.lastAnswer, hlast]
      refine ⟨?_, by rw [hall]; exact hd.unexpired⟩
      rw [hall]
      show d.httpStatus = if r.fault.isSome then r.status else 0
      rw [hf]
      exact hd.status

theorem Tells.checkinLegs (cfg : Config) : Tells (checkinLegs cfg true) := by
  have hrelax : deviceOverride true ≠ .default := by decide
  have hverify : TlsOverride.verify ≠ .default := by decide
  exact .bind (leg hrelax) fun _ => .bind (leg hverify) fun _ => .bind (leg hrelax) fun _ =>
    .bind (parseBody ..) fun _ => .pure _

/-- The exchanges of one check-in. -/
def CheckinEvents (why : CheckinReason) (es : List Event) : Prop :=
  ∃ inner, es = ⟨.mark (.checkin why), ()⟩ :: (inner ++ [⟨.mark .checkinDone, ()⟩]) ∧
    ∀ e ∈ inner, LegEvent e

/-- What a check-in can do: its legs between its two marks, with the recursion guard
down at the end, no change of the error detail where it succeeds, and the record of its
last leg where it fails. -/
structure CheckedIn {α : Type} (why : CheckinReason) (s : Ctx) (es : List Event) (r : Except Rc α)
    (s' : Ctx) : Prop where
  events : CheckinEvents why es
  frame : (s.setInCheckin false).Untouched s'
  spared : ∀ a, r = .ok a → s'.lastError = s.lastError
  told : ∀ rc, r = .error rc → Recorded es s'.lastError

theorem wp_guardCheckin {α : Type} {why : CheckinReason} {x : Cmd α} {s : Ctx} (hx : Keeps legs x)
    (hs : Spares x) (ht : Tells x) : wp (guardCheckin why x) (CheckedIn why s) s := by
  unfold guardCheckin
  rw [wp_bind, wp_mark, wp_bind, wp_modifyCtx, wp_bind, wp_attempt]
  refine wp_mono (wp_and (wp_and (hx.run _) (hs.run _)) (ht.run _)) fun es r s' h => ?_
  obtain ⟨⟨⟨hes, hf⟩, hsp⟩, htold⟩ := h
  dsimp only
  rw [wp_bind, wp_modifyCtx, wp_bind, wp_mark]
  have hev : CheckinEvents why ([⟨.mark (.checkin why), ()⟩] ++
      ([] ++ (es ++ ([] ++ ([⟨.mark .checkinDone, ()⟩] ++ []))))) := ⟨es, by simp, hes⟩
  have hframe : (s.setInCheckin false).Untouched (s'.setInCheckin false) :=
    ⟨hf.auth, rfl, hf.latch, hf.handles⟩
  have hlast : lastAnswer ([⟨.mark (.checkin why), ()⟩] ++
      ([] ++ (es ++ ([] ++ ([⟨.mark .checkinDone, ()⟩] ++ []))))) = lastAnswer es := by
    show lastAnswer (es ++ [⟨.mark .checkinDone, ()⟩]) = _
    exact lastAnswer_unsent fun e he => by rw [List.mem_singleton.mp he]; rfl
  cases r with
  | ok a => exact wp_pure.mpr ⟨hev, hframe, fun b _ => hsp a rfl, (fun _ hb => nomatch hb)⟩
  | error rc =>
    refine wp_throwRc.mpr ⟨hev, hframe, (fun b hb => nomatch hb), fun _ _ => ?_⟩
    exact ⟨by rw [hlast]; exact htold.status, by rw [hlast]; exact htold.expired⟩

theorem wp_checkinRun (cfg : Config) (why : CheckinReason) (s : Ctx) :
    wp (checkinRun cfg why true) (CheckedIn why s) s :=
  wp_guardCheckin (.bind (legs_checkinLegs cfg) fun _ => .pure _)
    (.bind (Spares.checkinLegs cfg) fun _ => .pure _) (.bind (Tells.checkinLegs cfg) fun _ => .pure _)

/-- Any two states. -/
def anyTwo : Likeness Ctx where
  rel _ _ := True
  refl _ := trivial

namespace AnyTwo
variable {α : Type} {cfg : Config}

theorem modify (g : Ctx → Ctx) : Heedless anyTwo (modifyCtx g) := .modify fun _ _ _ => trivial

theorem record (status : Int) (payload : Option Bytes) (fmt : List Piece) :
    Heedless anyTwo (record status payload fmt) := by
  refine .bind (modify _) fun _ => ?_
  cases payload with
  | none => exact .pure _
  | some p => exact .bind (.ask Op.alloc) fun _ => .ite (fun _ => modify _) fun _ => .pure _

theorem ctxFail (rc : Rc) (status : Int) (payload : Option Bytes) (fmt : List Piece) :
    Heedless anyTwo (ctxFail rc status payload fmt : Cmd α) :=
  .bind (record ..) fun _ => .throw _

theorem leg {method : Method} {path : Bytes} {jsonBody : Option Bytes} {ov : TlsOverride}
    (ho : ov ≠ .default) : Heedless anyTwo (leg cfg method path jsonBody ov) := by
  refine .ite (fun _ => ctxFail ..) fun _ => .bind (.pure _) fun bearer => ?_
  refine .bind (.bind (.ite (fun _ => .pure _) fun _ => .ask (Op.sleep _)) fun _ => .ask (Op.send ..)) ?_
  refine fun a => .bind (.get_bind (fun s => ?_) ?_) fun a => .bind ?_ fun r => .bind (.pure _) fun r => ?_
  · split
    · exact .ite (fun _ => .pure _) fun hg => absurd (fun h => hg (.inr (.inr h))) (by simpa using ho)
    · exact .pure _
  · intro s t _
    split
    · rw [if_pos (.inr (.inr ho)), if_pos (.inr (.inr ho))]
    · rfl
  · cases a with
    | done r => exact .pure _
    | failed why expired detail => exact .bind (record ..) fun _ => .bind (modify _) fun _ => .throw _
  · refine .ite (fun _ => ctxFail ..) fun _ => ?_
    split
    · exact ctxFail ..
    · exact ctxFail ..
    · exact .pure _

/-- A check-in goes by the answers to its legs only. -/
theorem recoveryCheckin (cfg : Config) : Heedless anyTwo (recoveryCheckin cfg) := by
  have hrelax : deviceOverride true ≠ .default := by decide
  have hverify : TlsOverride.verify ≠ .default := by decide
  refine .bind (.ask (Op.mark _)) fun _ => .bind (modify _) fun _ => .bind (Heedless.attempt ?_).heedless ?_
  · refine .bind ?_ fun _ => .pure _
    refine .bind (leg hrelax) fun _ => .bind (leg hverify) fun _ => .bind (leg hrelax) fun _ => ?_
    refine .bind (.bind (.bind (.ask Op.alloc) fun _ => .pure _) fun root => ?_) fun _ => .pure _
    split
    · exact ctxFail ..
    · exact .ite (fun _ => .pure _) fun _ => ctxFail ..
  · refine fun r => .bind (modify _) fun _ => .bind (.ask (Op.mark _)) fun _ => ?_
    split
    · exact .pure _
    · exact .throw _

end AnyTwo

/-- The exchanges of a recovery check-in that failed. -/
def FailedCheck (cfg : Config) (check : List Event) : Prop :=
  ∃ s rc s', Runs (recoveryCheckin cfg) s check (.error rc) s'

/-- The same exchanges are never those of one that succeeded, wherever it was started. -/
theorem FailedCheck.not_good {cfg : Config} {s s' : Ctx} {check : List Event} {u : Unit}
    (h : Runs (recoveryCheckin cfg) s check (.ok u) s') : ¬FailedCheck cfg check := by
  rintro ⟨t, rc, t', hf⟩
  exact nomatch (AnyTwo.recoveryCheckin cfg).unique trivial h hf

theorem FailedCheck.events {cfg : Config} {check : List Event} (h : FailedCheck cfg check) :
    CheckinEvents .recovery check := by
  obtain ⟨s, rc, s', hr⟩ := h
  exact (wp_checkinRun cfg .recovery s check _ s' hr).events

end EncedoHem
