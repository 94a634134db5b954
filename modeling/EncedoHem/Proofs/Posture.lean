import EncedoHem.Proofs.Plain
import EncedoHem.System
import EncedoHem.Scripted
import EncedoHem.TransportCurl

namespace EncedoHem
open Text Dialogue

def isAbsolute (path : Bytes) : Bool :=
  (lit "https://").isPrefixOf path || (lit "http://").isPrefixOf path

/-- How a dispatch may look: a bearer goes to the device's own interface only and as
the context verifies it, the device legs of a check-in alone go unverified, and
what leaves for an absolute URL is verified in full. -/
structure Guarded (req : Request) : Prop where
  bearer : ∀ v, (lit "Authorization", v) ∈ req.headers →
    lit "/api/" <+: req.path ∧ req.tlsOverride = .default
  relaxed : req.tlsOverride = .relax → req.path = checkinPath ∧
    (req.method = .get ∨ req.method = .post) ∧ ∀ v, (lit "Authorization", v) ∉ req.headers
  absolute : isAbsolute req.path = true → req.tlsOverride = .verify ∧
    ∀ v, (lit "Authorization", v) ∉ req.headers

def GuardedEvent : Event → Prop
  | ⟨.send _ req, _⟩ => Guarded req
  | _ => True

theorem device_not_absolute {path : Bytes} (h : lit "/api/" <+: path) : isAbsolute path = false := by
  obtain ⟨rest, rfl⟩ := h
  rfl

theorem PlainSend.guarded {scope : Option Bytes} {req : Request} (h : PlainSend scope req) :
    Guarded req where
  bearer v hv := absurd hv (h.noBearer v)
  relaxed hr := ⟨(h.relaxed hr).1, (h.relaxed hr).2, h.noBearer⟩
  absolute ha := by
    refine ⟨?_, h.noBearer⟩
    by_contra hv
    have hd : isAbsolute req.path = false := device_not_absolute (h.device hv)
    rw [ha] at hd
    exact Bool.noConfusion hd

theorem PlainEvent.guarded {e : Event} (h : PlainEvent e) : GuardedEvent e := by
  obtain ⟨op, ans⟩ := e
  cases op with
  | send scope req => exact PlainSend.guarded h
  | _ => exact trivial

/-- A request to the device's interface may carry a bearer, as it is not overridden. -/
theorem device_guarded (cfg : Config) (method : Method) (path : Bytes) (body bearer : Option Bytes)
    (fresh : Bool) :
    Guarded (buildRequest cfg method (lit "/api/" ++ path) body bearer .default fresh) where
  bearer _ _ := ⟨List.prefix_append _ _, rfl⟩
  relaxed hr := nomatch hr
  absolute ha := by
    have hd : isAbsolute (lit "/api/" ++ path) = false := device_not_absolute (List.prefix_append _ _)
    exact absurd (ha.symm.trans hd) (fun h => nomatch h)

/-- Every dispatch of every run is guarded. -/
abbrev Posture {α : Type} (x : Cmd α) : Prop := Keeps (Emits GuardedEvent) x

namespace Posture
variable {α : Type} {cfg : Config}

theorem ofPlain {x : Cmd α} (h : Plain x) : Posture x := h.emits fun _ => PlainEvent.guarded

theorem neutral : Neutral (Emits GuardedEvent) := emits_neutral fun ⟨op, ans⟩ he => by
  cases op with
  | send scope req => exact absurd he Bool.false_ne_true
  | _ => exact trivial

theorem device (method : Method) (path : Bytes) (body scope : Option Bytes) :
    Posture (requestRaw cfg method (lit "/api/" ++ path) body scope .default) := by
  refine neutral.requestRawWith (fun _ => emits_nil) (fun _ => ofPlain Plain.recoveryCheckin)
    (fun sc _ => ofPlain (Plain.modifyAuth _)) (fun sc _ => ofPlain (Plain.ensureToken sc)) ?_
  intro s bearer fresh a _
  exact emits_single (device_guarded cfg method path body bearer fresh)

theorem cloud (method : Method) (url : Bytes) (body : Option Bytes) :
    Posture (requestRaw cfg method url body none .verify) := by
  have hp : Plain (requestRaw cfg method url body none .verify) :=
    Plain.neutral.requestRawWith_plain (fun _ => emits_nil) (fun h => nomatch h)
      fun _ _ a => Plain.cloud_send a
  exact ofPlain hp

/-- Every primitive command of the interface is guarded, so that every use of it is. -/
theorem prim {x : Cmd α} (h : Prim cfg α x) : Posture x := by
  cases h with
  | part _ _ h => exact ofPlain (h.keeps Plain.machinery)
  | device method path body scope => exact device ..
  | cloud method url body => exact cloud ..
  | checkin => exact ofPlain (Plain.checkinRunInfo ..)
  | login passphrase => exact ofPlain (Plain.loginMarked ..)
  | loginMobile => exact ofPlain Plain.loginMobile
  | logout => exact ofPlain Plain.logout
  | authInvalidateAll => exact ofPlain Plain.authInvalidateAll
  | deviceInit p out => exact ofPlain (Plain.deviceInit ..)
  | confirmBegin url scope ctxStr note => exact ofPlain (Plain.extConfirmBegin ..)
  | confirmPoll i => exact ofPlain (Plain.extConfirmPoll i)
  | confirmWait i timeoutMs => exact ofPlain (Plain.extConfirmWait ..)
  | confirmCancel i => exact ofPlain (Plain.modifyCtx _)

theorem api (x : Api cfg α) : Posture x.cmd := x.keeps fun _ _ h => prim h

end Posture

/-- How a transfer of the built-in transport has to be set up for a request:
verification is off exactly where the request is relaxed or the context is
insecure and not overridden, and the pinned CA is for requests that are not overridden. -/
structure Verified (mode : TlsMode) (req : Request) (h : Easy) : Prop where
  off : (h.sslVerifyPeer = 0 ∧ h.sslVerifyHost = 0) ↔
    req.tlsOverride = .relax ∨ (req.tlsOverride = .default ∧ mode = .insecure)
  on : (h.sslVerifyPeer = 1 ∧ h.sslVerifyHost = 2) ↔
    ¬(req.tlsOverride = .relax ∨ (req.tlsOverride = .default ∧ mode = .insecure))
  pinned : req.tlsOverride ≠ .default → h.caInfo = none

namespace CurlState

/-- Outside of the pinned mode no CA file is ever put on the handle. -/
structure Unpinned (mode : TlsMode) (st : CurlState) : Prop where
  sameMode : st.tlsMode = mode
  noCa : mode ≠ .caFile → st.handle.caInfo = none

theorem unpinned_new (base : Bytes) (mode : TlsMode) (ca : Option Bytes) :
    Unpinned mode (transportDefaultNew base mode ca) := ⟨rfl, fun _ => rfl⟩

theorem applyMethod_caInfo (method : Method) (body : Option Bytes) (h : Easy) :
    (applyMethod method body h).caInfo = h.caInfo := by
  cases method with
  | _ => rfl

theorem prepare_caInfo (st : CurlState) (req : Request) :
    (prepare st req).caInfo = if st.tlsMode = .caFile then
      if req.tlsOverride = .default then st.caFile else none
    else st.handle.caInfo := by
  simp only [prepare, applyTlsVerify]
  split
  · rfl
  · exact applyMethod_caInfo ..

theorem prepare_verify (st : CurlState) (req : Request) :
    ((prepare st req).sslVerifyPeer, (prepare st req).sslVerifyHost) =
      if req.tlsOverride = .relax ∨ (req.tlsOverride = .default ∧ st.tlsMode = .insecure)
      then (0, 0) else (1, 2) := by
  simp only [prepare, applyTlsVerify, decide_eq_true_eq]
  split <;> split <;> rfl

theorem Unpinned.verified {mode : TlsMode} {st : CurlState} (h : Unpinned mode st) (req : Request) :
    Verified mode req (prepare st req) := by
  have hv := prepare_verify st req
  rw [h.sameMode] at hv
  have hpinned : req.tlsOverride ≠ .default → (prepare st req).caInfo = none := by
    intro ho
    rw [prepare_caInfo, if_neg ho]
    by_cases hm : st.tlsMode = .caFile
    · exact if_pos hm
    · rw [if_neg hm]
      exact h.noCa (h.sameMode ▸ hm)
  split at hv
  · rename_i hr
    obtain ⟨hp, hh⟩ := Prod.mk.inj hv
    exact ⟨⟨fun _ => hr, fun _ => ⟨hp, hh⟩⟩, ⟨fun h1 => by omega, fun hn => absurd hr hn⟩, hpinned⟩
  · rename_i hr
    obtain ⟨hp, hh⟩ := Prod.mk.inj hv
    exact ⟨⟨fun h0 => by omega, fun hy => absurd hy hr⟩, ⟨fun _ => hr, fun _ => ⟨hp, hh⟩⟩, hpinned⟩

theorem Unpinned.prepare {mode : TlsMode} {st : CurlState} (h : Unpinned mode st) (req : Request) :
    mode ≠ .caFile → (prepare st req).caInfo = none := by
  intro hm
  rw [prepare_caInfo, if_neg (h.sameMode ▸ hm)]
  exact h.noCa hm

/-- One request: the transfer it has done, if any, is set up as it must be, and the
handle it leaves is no more pinned than it was. -/
theorem Unpinned.send {mode : TlsMode} {st : CurlState} (h : Unpinned mode st) (req : Request)
    (memory : Bool) (t : Transfer) :
    (∀ e, (curlSend st req memory t).1 = some e → Verified mode req e) ∧
      Unpinned mode (curlSend st req memory t).2.2 := by
  have h0 : Unpinned mode { st with tlsExpired := false, detail := [] } := ⟨h.sameMode, h.noCa⟩
  have hv : Verified mode req (EncedoHem.prepare { st with tlsExpired := false, detail := [] } req) :=
    h0.verified req
  have hn := h0.prepare req
  unfold curlSend
  split
  · exact ⟨(fun e he => nomatch he), h0⟩
  · dsimp only
    split
    · exact ⟨fun e he => Option.some.inj he ▸ hv, ⟨h.sameMode, hn⟩⟩
    · split
      · exact ⟨fun e he => Option.some.inj he ▸ hv, ⟨h.sameMode, hn⟩⟩
      · exact ⟨fun e he => Option.some.inj he ▸ hv, ⟨h.sameMode, hn⟩⟩

/-- Every transfer of a sequence: induction on the requests, with the handle that
one leaves to the next. -/
theorem Unpinned.sends {mode : TlsMode} {st : CurlState} (h : Unpinned mode st)
    (steps : List (Request × Bool × Transfer)) :
    ∀ p ∈ curlSends st steps, Verified mode p.1 p.2 := by
  induction steps generalizing st with
  | nil => intro p hp; exact absurd hp List.not_mem_nil
  | cons step steps ih =>
    obtain ⟨req, memory, t⟩ := step
    obtain ⟨hs, hnext⟩ := h.send req memory t
    intro p hp
    rcases List.mem_append.mp hp with hp | hp
    · obtain ⟨e, he, rfl⟩ := Option.map_eq_some_iff.mp (Option.mem_toList.mp hp)
      exact hs e he
    · exact ih hnext p hp

end CurlState

/-- In any use of the interface, whatever the transport answers: where a bearer may
appear, what may go unverified and what must be verified in full; and how the
built-in transport sets up the transfers it does for any sequence of requests. -/
theorem dispatches_guarded (cfg : Config) {α : Type} (x : Api cfg α) (s s' : Ctx)
    (es : List Event) (r : Except Rc α) (h : Runs x.cmd s es r s') :
    (∀ scope req a, (⟨.send scope req, a⟩ : Event) ∈ es → Guarded req) ∧
    (∀ (base : Bytes) (ca : Option Bytes) (steps : List (Request × Bool × Transfer)),
      ∀ p ∈ curlSends (transportDefaultNew base cfg.tlsMode ca) steps, Verified cfg.tlsMode p.1 p.2) := by
  refine ⟨fun scope req a he => (Posture.api x).run s es r s' h _ he, fun base ca steps => ?_⟩
  exact (CurlState.unpinned_new base cfg.tlsMode ca).sends steps

def Event.override? : Event → Option TlsOverride
  | ⟨.send _ req, _⟩ => some req.tlsOverride
  | _ => none

/-- A reboot with a cached bearer: the certificate turns out expired, the check-in
goes through, the bearer turns out invalid, and the login for another one is refused. -/
def rebootAnswers : List Answer :=
  [.expired, .object [], .object [], .object [], .status 401, .status 403]

def rebootCtx : Ctx :=
  { Ctx.initial with auth := some ⟨some (lit "pw"), 2, true, none, false,
    [⟨systemConfigScope, lit "t", 9⟩]⟩ }

theorem reboot_dispatches_guarded :
    let es := scriptEvents (Api.systemReboot : Api .standard Unit).cmd rebootCtx 5 rebootAnswers
    es.filterMap Event.override? =
        [.default, .relax, .verify, .relax, .default, .default, .relax] ∧
      ∀ scope req a, (⟨.send scope req, a⟩ : Event) ∈ es → Guarded req :=
  ⟨by decide +kernel, (dispatches_guarded .standard Api.systemReboot rebootCtx _ _ _
    (script_runs _ _ 5 rebootAnswers)).1⟩

end EncedoHem
