import EncedoHem.Lib.Traced
import EncedoHem.Proofs.CheckinLaw
import EncedoHem.Proofs.Compact

namespace EncedoHem
open Text Dialogue

/-- The end of a session: what was acquired in it is dropped. -/
def Event.ends : Event → Bool
  | ⟨.mark .reset, _⟩ => true
  | ⟨.mark .initLogin, _⟩ => true
  | _ => false

/-- Either that, or the start of a redemption. -/
def Event.turns : Event → Bool
  | ⟨.mark (.redeem _), _⟩ => true
  | e => e.ends

/-- A dispatch under a scope. -/
def Event.scoped : Event → Bool
  | ⟨.send (some _) _, _⟩ => true
  | _ => false

/-- No session ends. -/
def Lasting (es : List Event) : Prop := ∀ e ∈ es, e.ends = false

/-- A login token whose claims name the scope. -/
def EjwtFor (scope ejwt : Bytes) : Prop :=
  ∃ jti spk iss now exp tag, ejwt = compactToken (b64Chars .url false ejwtHeader)
    (b64Chars .url false (printValue (.obj (ejwtClaims jti spk scope iss now exp)))) tag

/-- The device answers a request of this kind with an object that holds the token. -/
structure Hands (req : Request) (resp : Response) (method : Method) (path token : Bytes) : Prop where
  asked : req.method = method ∧ req.path = path
  good : resp.fault = none
  holds : ∃ b root, resp.body = some b ∧ jsonParse (cstr b) = some root ∧ root.getString (lit "token") = some token

/-- The device accepted a request for the scope that a confirmation begins with. -/
def Begun (h : List Event) (scope : Bytes) : Prop :=
  ∃ req resp ms, (⟨.send none req, .done resp⟩ : Event) ∈ h ∧ req.method = .post ∧ req.path = extRequestPath ∧
    req.body = some (printValue (.obj ms)) ∧ (lit "scope", .str scope) ∈ ms ∧ resp.fault = none

/-- Where a token comes from that a history holds for a scope: the answer to a login post made for it, to
the redemption of a confirmation begun for it, or to the device's personalisation, in a session that lasts. -/
inductive Sourced (h : List Event) (scope token : Bytes) : Prop where
  | login (pre post : List Event) (req : Request) (resp : Response) (ejwt : Bytes)
      (place : h = pre ++ ⟨.send none req, .done resp⟩ :: post) (hands : Hands req resp .post authTokenPath token)
      (made : req.body = some (authBody ejwt)) (names : EjwtFor scope ejwt) (lasting : Lasting post)
  | redeemed (pre mid post : List Event) (req : Request) (resp : Response)
      (place : h = pre ++ ⟨.mark (.redeem scope), ()⟩ :: (mid ++ ⟨.send none req, .done resp⟩ :: post))
      (begun : Begun pre scope) (hands : Hands req resp .post extTokenPath token)
      (same : ∀ e ∈ mid, e.turns = false) (lasting : Lasting post)
  | seeded (pre mid post : List Event) (req : Request) (resp : Response) (personal : scope = lit "system:config")
      (place : h = pre ++ ⟨.send none req, .done resp⟩ :: (mid ++ ⟨.mark .initLogin, ()⟩ :: post))
      (hands : Hands req resp .post authInitPath token) (same : ∀ e ∈ mid, e.turns = false)
      (lasting : Lasting post)

/-- The engine handed the token out for the scope, and one that it found in the cache had not expired at the
reading of the clock that it was looked up with. -/
def HandedOut (h : List Event) (scope token : Bytes) : Prop :=
  ∃ pre post found, h = pre ++ ⟨.mark (.granted scope token found), ()⟩ :: post ∧ Lasting post ∧
    ∀ exp now, found = some (exp, now) → now < exp ∧ latest Event.authReading pre = some now

/-- The token is at hand for a request under the scope. -/
structure AtHand (h : List Event) (scope token : Bytes) : Prop where
  sourced : Sourced h scope token
  handed : HandedOut h scope token

/-- The request's one bearer is the token. -/
def Request.Carries (req : Request) (token : Bytes) : Prop :=
  req.headers = requestHeaders req.body (some (lit "Bearer " ++ token))

/-- A request under a scope carries a token that is at hand for it. -/
def Vouched (h : List Event) : Event → Prop
  | ⟨.send (some scope) req, _⟩ => ∃ token, req.Carries token ∧ AtHand h scope token
  | _ => True

/-- Every token in the cache has its source, and every handle was begun for its scope. -/
def bearerLaw : Law Op Ans Ctx where
  inv h s := (∀ a, s.auth = some a → ∀ e ∈ a.cache, Sourced h e.scope e.token) ∧
    ∀ c, some c ∈ s.handles → Begun h c.scope
  allows h e := Vouched h e

theorem Vouched.unscoped {h : List Event} {e : Event} (he : e.scoped = false) : Vouched h e := by
  obtain ⟨op, ans⟩ := e
  cases op with
  | send scope req =>
    cases scope with
    | some sc => cases he
    | none => exact trivial
  | _ => exact trivial

theorem Event.scoped_of_quiet {e : Event} (h : e.op.quiet = true) : e.scoped = false := by
  obtain ⟨op, ans⟩ := e
  cases op with
  | send scope req => cases h
  | _ => rfl

theorem Event.ends_of_turns {e : Event} (h : e.turns = false) : e.ends = false := by
  unfold Event.turns at h
  split at h
  · cases h
  · exact h

theorem Event.turns_of_loud {e : Event} (h : e.loud = none) : e.turns = false := by
  obtain ⟨op, ans⟩ := e
  cases op with
  | mark m => cases h
  | _ => rfl

namespace Lasting
variable {es es' : List Event}

theorem nil : Lasting [] := fun _ he => absurd he List.not_mem_nil

theorem append (h : Lasting es) (h' : Lasting es') : Lasting (es ++ es') := by
  intro e he
  rcases List.mem_append.mp he with he | he
  · exact h e he
  · exact h' e he

theorem single {e : Event} (h : e.ends = false) : Lasting [e] := fun d hd => by rw [List.mem_singleton.mp hd, h]

theorem calm (h : Calm es) : Lasting es :=
  fun e he => Event.ends_of_turns (Event.turns_of_loud (Event.loud_of_quiet (h e he)))

end Lasting

theorem Begun.left {h h' : List Event} {scope : Bytes} (hb : Begun h scope) : Begun (h ++ h') scope := by
  obtain ⟨req, resp, ms, hm, hrest⟩ := hb
  exact ⟨req, resp, ms, List.mem_append_left h' hm, hrest⟩

theorem Begun.right {h h' : List Event} {scope : Bytes} (hb : Begun h' scope) : Begun (h ++ h') scope := by
  obtain ⟨req, resp, ms, hm, hrest⟩ := hb
  exact ⟨req, resp, ms, List.mem_append_right h hm, hrest⟩

section
variable {h es : List Event} {scope token : Bytes}

/-- As long as the session lasts, so does a token's source. -/
theorem Sourced.append (hs : Sourced h scope token) (hl : Lasting es) : Sourced (h ++ es) scope token := by
  cases hs with
  | login pre post req resp ejwt place hands made names lasting =>
    refine .login pre (post ++ es) req resp ejwt ?_ hands made names (lasting.append hl)
    rw [place, List.append_assoc, List.cons_append]
  | redeemed pre mid post req resp place begun hands same lasting =>
    refine .redeemed pre mid (post ++ es) req resp ?_ begun hands same (lasting.append hl)
    rw [place, List.append_assoc, List.cons_append, List.append_assoc, List.cons_append]
  | seeded pre mid post req resp personal place hands same lasting =>
    refine .seeded pre mid (post ++ es) req resp personal ?_ hands same (lasting.append hl)
    rw [place, List.append_assoc, List.cons_append, List.append_assoc, List.cons_append]

theorem HandedOut.append (hs : HandedOut h scope token) (hl : Lasting es) : HandedOut (h ++ es) scope token := by
  obtain ⟨pre, post, found, rfl, hp, hf⟩ := hs
  refine ⟨pre, post ++ es, found, ?_, hp.append hl, hf⟩
  rw [List.append_assoc, List.cons_append]

theorem AtHand.append (hs : AtHand h scope token) (hl : Lasting es) : AtHand (h ++ es) scope token :=
  ⟨hs.sourced.append hl, hs.handed.append hl⟩

end

namespace Sourcing
variable {cfg : Config}

abbrev kept : Contract Op Ans Ctx := bearerLaw.kept

/-- An exchange that ends no session and is made under no scope. -/
theorem event {e : Event} (hl : e.ends = false) (hv : e.scoped = false) (s : Ctx) : kept.rel s [e] s := by
  intro h hs
  refine ⟨⟨fun a ha d hd => ?_, fun c hc => ?_⟩, .single (.unscoped hv)⟩
  · exact (hs.1 a ha d hd).append (.single hl)
  · exact (hs.2 c hc).left

/-- A change that drops bearers at most. -/
theorem shrink {s s' : Ctx} (hc : ∀ a', s'.auth = some a' → ∀ e ∈ a'.cache, ∃ a, s.auth = some a ∧ e ∈ a.cache)
    (hh : ∀ c, some c ∈ s'.handles → some c ∈ s.handles) : kept.rel s [] s' := by
  intro h hs
  rw [List.append_nil]
  refine ⟨⟨fun a' ha' e he => ?_, fun c hmem => hs.2 c (hh c hmem)⟩, .nil⟩
  obtain ⟨a, ha, hm⟩ := hc a' ha' e he
  exact hs.1 a ha e hm

theorem still {s s' : Ctx} (ha : s'.auth = s.auth) (hh : s'.handles = s.handles) : kept.rel s [] s' :=
  shrink (fun a' ha' _ he => ⟨a', ha ▸ ha', he⟩) fun _ hc => hh ▸ hc

theorem timed : Timed kept where
  quiet s e he :=
    event (Event.ends_of_turns (Event.turns_of_loud (Event.loud_of_quiet he))) (Event.scoped_of_quiet he) s
  error _ _ := still rfl rfl
  clock s e he := by
    obtain ⟨op, ans⟩ := e
    cases op with
    | authNow => exact event rfl rfl s
    | wallTime => exact event rfl rfl s
    | _ => cases he

theorem neutral : Neutral kept := timed.toNeutral

theorem mark {m : Mark} (hm : Event.ends ⟨.mark m, ()⟩ = false) : Keeps kept (mark m) :=
  .ask fun s _ => event hm rfl s

theorem modifyAuth {f : Auth → Auth} (hf : ∀ a, ∀ e ∈ (f a).cache, e ∈ a.cache) : Keeps kept (modifyAuth f) := by
  refine .modify fun s => shrink (fun a' ha' e he => ?_) fun c hc => hc
  obtain ⟨a, ha, rfl⟩ := Option.map_eq_some_iff.mp ha'
  exact ⟨a, ha, hf a e he⟩

/-- Calm exchanges, after which there are no bearers but the ones before. -/
theorem calm {s s' : Ctx} {es : List Event} (hc : Calm es) (hk : kept.rel s [] s') : kept.rel s es s' := by
  intro h hs
  obtain ⟨hs', -⟩ := hk h hs
  rw [List.append_nil] at hs'
  refine ⟨⟨fun a ha e he => (hs'.1 a ha e he).append (.calm hc), fun c hmem => (hs'.2 c hmem).left⟩, ?_⟩
  exact .of_forall fun e he _ => .unscoped (Event.scoped_of_quiet (hc e he))

theorem needAuth : Keeps kept needAuth := by
  refine ⟨fun s => wp_needAuth (fun _ _ => kept.refl s) (fun es _ hc => ?_) fun es d _ hc => calm hc (still rfl rfl)⟩
  refine calm hc (shrink (fun a ha e he => ?_) fun _ hc => hc)
  rw [← Option.some.inj ha] at he
  cases he

theorem plain_send {s : Ctx} {req : Request} (a : Answer) : kept.rel s [⟨.send none req, a⟩] s :=
  event rfl rfl s

theorem checkinLegs : Keeps kept (checkinLegs cfg true) :=
  neutral.checkinLegs (fun _ => still rfl rfl) (fun _ _ a => plain_send a) (fun _ _ _ a => plain_send a)
    fun _ _ _ a => plain_send a

theorem guardCheckin {α : Type} {why : CheckinReason} {x : Cmd α} (hx : Keeps kept x) :
    Keeps kept (guardCheckin why x) := by
  refine .bind (mark rfl) fun _ => .bind (.modify fun _ => still rfl rfl) fun _ => .bind (.attempt hx) fun r => ?_
  refine .bind (.modify fun _ => still rfl rfl) fun _ => .bind (mark rfl) fun _ => ?_
  split
  · exact .pure _
  · exact .throw _

theorem checkinRun (why : CheckinReason) : Keeps kept (checkinRun cfg why true) :=
  guardCheckin (.bind checkinLegs fun _ => .pure _)

theorem checkinRunInfo (why : CheckinReason) : Keeps kept (checkinRunInfo cfg why true) :=
  guardCheckin (.bind checkinLegs fun _ => neutral.harvest ..)

theorem requestPlain {method : Method} {path : Bytes} {body : Option Bytes} {ov : TlsOverride} :
    Keeps kept (requestPlain cfg method path body ov) :=
  neutral.requestRawWith_plain (fun _ => still rfl rfl) (fun _ => checkinRun _) fun _ _ a => plain_send a

theorem requestPlainJson {method : Method} {path : Bytes} {body : Option Bytes} :
    Keeps kept (requestPlainJson cfg method path body) := .bind requestPlain fun _ => neutral.parseBody ..

theorem machinery : Machinery cfg kept where
  toNeutral := neutral
  broker _ _ _ _ := neutral.notifySend fun _ _ a => plain_send a
  plain _ _ _ _ := requestPlain
  extPost _ _ _ := neutral.extLoginPost requestPlainJson (checkinRun _)

/-- An exchange outside a scope that was answered with the object, and neither a dispatch nor a mark after it. -/
def Answered (method : Method) (path : Bytes) (body : Option Bytes) (es : List Event) (root : Json) : Prop :=
  ∃ pre post req resp b, es = pre ++ ⟨.send none req, .done resp⟩ :: post ∧ (∀ e ∈ post, e.loud = none) ∧
    (req.method = method ∧ req.path = path) ∧ req.body = body ∧ resp.fault = none ∧ resp.body = some b ∧
    jsonParse (cstr b) = some root

theorem Answered.after {method : Method} {path : Bytes} {body : Option Bytes} {es es' : List Event} {root : Json}
    (h : Answered method path body es' root) : Answered method path body (es ++ es') root := by
  obtain ⟨pre, post, req, resp, b, rfl, hrest⟩ := h
  exact ⟨es ++ pre, post, req, resp, b, by simp, hrest⟩

theorem Answered.calm {method : Method} {path : Bytes} {body : Option Bytes} {es es' : List Event} {root : Json}
    (h : Answered method path body es root) (hc : Calm es') : Answered method path body (es ++ es') root := by
  obtain ⟨pre, post, req, resp, b, rfl, hpost, hrest⟩ := h
  refine ⟨pre, post ++ es', req, resp, b, by simp, fun e he => ?_, hrest⟩
  rcases List.mem_append.mp he with he | he
  · exact hpost e he
  · exact Event.loud_of_quiet (hc e he)

/-- A request that succeeds was answered with what it hands out. -/
theorem answered_requestPlainJson (method : Method) (path : Bytes) (body : Option Bytes) :
    Draws (EncedoHem.requestPlainJson cfg method path body) (Answered method path body) := by
  refine ⟨fun s => wp_mono (wp_requestPlainJson cfg method path body s) fun es r s' ha root hr => ?_⟩
  subst hr
  obtain ⟨fresh, r, b, hl, hf, hb, hp⟩ := ha.answered
  obtain ⟨pre, e, post, rfl, he, hpost⟩ := latest_split (lastDone_eq.mp hl)
  have heq : e = ⟨.send none (buildRequest cfg method path body none .default fresh), .done r⟩ := by
    rcases Event.loud_self e with h0 | h1
    · rw [h0] at he
      cases he
    · rw [h1] at he
      exact Option.some.inj he
  exact ⟨pre, post, _, r, b, by rw [heq], hpost, ⟨rfl, rfl⟩, rfl, hf, hb, hp⟩

theorem answered_extLoginPost (path body : Bytes) :
    Draws (EncedoHem.extLoginPost cfg path body) (Answered .post path (some body)) := by
  refine ⟨fun s => ?_⟩
  unfold EncedoHem.extLoginPost
  rw [wp_bind, wp_attempt]
  refine wp_mono ((answered_requestPlainJson .post path (some body)).run s) fun es r s₁ ha => ?_
  dsimp only
  rw [wp_bind, wp_getCtx]
  cases r with
  | ok root =>
    refine wp_pure.mpr fun root' hr => ?_
    rw [← Except.ok.inj hr]
    simpa using ha root rfl
  | error rc =>
    dsimp only
    rw [wp_ite]
    split
    · rw [wp_bind, wp_attempt]
      intro es' crc s₂ _
      cases crc with
      | error rc' =>
        dsimp only
        rw [wp_bind, wp_getCtx]
        exact wp_ctxFail_of fun _ _ _ _ _ _ hr => by cases hr
      | ok u =>
        refine wp_mono ((answered_requestPlainJson .post path (some body)).run s₂) fun es'' r s₃ ha' root hr => ?_
        exact ((ha' root hr).after).after
    · exact wp_throwRc.mpr fun _ hr => by cases hr

theorem yields_signCompact (header payload key : Bytes) : Yields (signCompact header payload key)
    fun jwt => ∃ tag, jwt = compactToken (b64Chars .url false header) (b64Chars .url false payload) tag := by
  refine .bind fun _ => ?_
  split
  · rename_i h p hh hp
    rw [header_fits] at hh
    rw [payload_fits, Option.some.injEq] at hp
    refine .bind fun _ => .bind fun mac => .bind fun mac => ?_
    split
    · rename_i tag _
      split at hh
      · rw [← Option.some.inj hh, ← hp]
        exact .pure ⟨tag, rfl⟩
      · cases hh
    · exact .throw _ _
  · exact .throw _ _

theorem yields_deriveEjwt (scope eid spk jti peer : Bytes) (now : Int) :
    Yields (deriveEjwt cfg scope eid spk jti peer now) (EjwtFor scope) := by
  refine .bind fun s => .bind fun seed => .bind fun seed => .bind fun pair => .bind fun pair => ?_
  refine .bind fun shared => .bind fun shared => ?_
  unfold ejwtBuild
  split
  · exact .throw _ _
  · rename_i iss _
    refine .bind fun _ => ⟨fun s => wp_mono ((yields_signCompact ..).run s) fun _ r _ h jwt hr => ?_⟩
    obtain ⟨tag, htag⟩ := h jwt hr
    exact ⟨jti, spk, iss, now, now + tokenLifetime, tag, htag⟩

theorem lasting_quiet {es : List Event} (hq : ∀ e ∈ es, e.loud = none) : Lasting es :=
  fun e he => Event.ends_of_turns (Event.turns_of_loud (hq e he))

/-- Neither an end of a session nor a redemption. -/
abbrev Steady {α : Type} (x : Cmd α) : Prop := Keeps (Emits fun e : Event => e.turns = false) x

theorem steady : Timed (Emits fun e : Event => e.turns = false) := by
  apply emits_timed
  intro e he
  obtain ⟨op, ans⟩ := e
  cases op with
  | mark m => exact absurd he Bool.false_ne_true
  | _ => rfl

theorem steady_checkinRun (why : CheckinReason) : Steady (EncedoHem.checkinRun cfg why true) := by
  refine ⟨fun s => wp_mono (wp_checkinRun cfg why s) fun es r s' hc e he => ?_⟩
  obtain ⟨inner, rfl, hi⟩ := hc.events
  rcases List.mem_cons.mp he with rfl | he
  · rfl
  · rcases List.mem_append.mp he with he | he
    · obtain ⟨op, ans⟩ := e
      cases op with
      | mark m => cases hi _ he
      | _ => rfl
    · rw [List.mem_singleton.mp he]
      rfl

theorem steady_requestPlainJson {method : Method} {path : Bytes} {body : Option Bytes} :
    Steady (EncedoHem.requestPlainJson cfg method path body) :=
  .bind (steady.requestRawWith_plain (fun _ => emits_nil) (fun _ => steady_checkinRun _)
    fun _ _ _ => emits_single rfl) fun _ => steady.parseBody ..

theorem steady_extToken (authreply : Bytes) : Steady (extToken cfg authreply) :=
  steady.extToken fun _ => steady.extLoginPost steady_requestPlainJson (steady_checkinRun _)

section
variable {h : List Event} {scope token : Bytes}

/-- A bearer that an answer holds. -/
theorem Answered.hands {method : Method} {path : Bytes} {body : Option Bytes} {es : List Event} {root : Json}
    (ha : Answered method path body es root) (ht : root.getString (lit "token") = some token) :
    ∃ pre post req resp, es = pre ++ ⟨.send none req, .done resp⟩ :: post ∧ (∀ e ∈ post, e.loud = none) ∧
      req.body = body ∧ Hands req resp method path token := by
  obtain ⟨pre, post, req, resp, b, rfl, hpost, hreq, hbody, hf, hb, hp⟩ := ha
  exact ⟨pre, post, req, resp, rfl, hpost, hbody, hreq, hf, b, root, hb, hp, ht⟩

theorem failed {α : Type} {V : List Event → α → Prop} {rc : Rc} {status : Int} {payload : Option Bytes}
    {fmt : List Piece} : After bearerLaw h (ctxFail rc status payload fmt) V :=
  (After.of_yields (neutral.ctxFail ..) (yields_ctxFail rc status payload fmt fun _ => False)).mono
    fun _ _ hf => hf.elim

/-- A source is kept by what keeps the law and does not end the session. -/
theorem carried {α : Type} {x : Cmd α} (hs : Sourced h scope token) (hk : Keeps kept x) (hx : Steady x) :
    After bearerLaw h x fun h' _ => Sourced h' scope token :=
  (After.of_emits hk hx).mono fun _ _ ⟨_, he, hes⟩ => he ▸ hs.append fun e hm => Event.ends_of_turns (hes e hm)

/-- A bearer goes into the cache with its source. -/
theorem cachePut (hs : Sourced h scope token) (exp : Int) :
    After bearerLaw h (cachePut scope token exp) fun h' _ => Sourced h' scope token := by
  refine ⟨fun s hinv => wp_cachePut (fun es hc => ?_) fun es hc => ?_⟩
  · obtain ⟨hold, ho⟩ := calm hc (kept.refl s) h hinv
    exact ⟨hold, ho, fun _ _ => hs.append (.calm hc)⟩
  · obtain ⟨hold, ho⟩ := calm hc (kept.refl s) h hinv
    refine ⟨⟨fun a' ha' e he => ?_, hold.2⟩, ho, fun _ _ => hs.append (.calm hc)⟩
    obtain ⟨a, ha, rfl⟩ := Option.map_eq_some_iff.mp ha'
    have hmem : e = ⟨scope, token, exp⟩ ∨ e ∈ a.cache := by
      unfold Auth.put at he
      split at he
      · obtain ⟨d, hd, rfl⟩ := List.mem_map.mp he
        split
        · exact .inl rfl
        · exact .inr hd
      · exact List.mem_cons.mp he
    rcases hmem with rfl | hmem
    · exact hs.append (.calm hc)
    · exact hold.1 a ha e hmem

theorem afterUse : Keeps kept (EncedoHem.modifyAuth Auth.afterUse) := modifyAuth fun a e he => by
  unfold Auth.afterUse at he
  split at he
  · exact he
  · exact he

/-- A login post made for the scope comes back with a token for it. -/
theorem redeemEjwt {ejwt : Bytes} (hn : EjwtFor scope ejwt) (now : Int) :
    After bearerLaw h (redeemEjwt cfg scope ejwt now) fun h' token => Sourced h' scope token := by
  refine .bind (.of_keeps neutral.need) fun h₁ _ _ => ?_
  refine .bind (.of_draws requestPlainJson (answered_requestPlainJson ..)) fun h₂ root ⟨es, he, ha⟩ => ?_
  split
  · exact failed
  · rename_i token ht
    obtain ⟨pre, post, req, resp, rfl, hpost, hbody, hands⟩ := ha.hands ht
    have hs : Sourced h₂ scope token :=
      .login (h₁ ++ pre) post req resp ejwt (by simp [he]) hands hbody hn (lasting_quiet hpost)
    refine .bind (carried hs (neutral.peekClaim ..) (steady.peekClaim ..)) fun h₃ exp hs₃ => ?_
    refine .bind (cachePut hs₃ _) fun h₄ put hs₄ => .ite (fun _ => ?_) fun _ => failed
    exact .bind (carried hs₄ afterUse (.modify fun _ => emits_nil)) fun h₅ _ hs₅ => .pure hs₅

theorem username (lbl : Bytes) : Keeps kept (EncedoHem.modifyAuth fun a => { a with username := some lbl }) :=
  modifyAuth fun _ _ he => he

theorem answerChallenge (now : Int) (challenge : Json) :
    After bearerLaw h (answerChallenge cfg scope now challenge) fun h' token => Sourced h' scope token := by
  unfold EncedoHem.answerChallenge
  split
  · refine .bind (.of_keeps (neutral.noteUsername username _)) fun h₁ _ _ => ?_
    split
    · exact failed
    · refine .bind (After.attempt (.of_yields (neutral.deriveEjwt ..) (yields_deriveEjwt ..))) fun h₂ r hr => ?_
      split
      · exact failed
      · exact redeemEjwt (hr _ rfl) now
  · exact failed

theorem fetchChallenge (spent : Bool) : Keeps kept (fetchChallenge cfg spent) :=
  LoggingIn.fetchChallenge (P := fun _ => False)
    { neutral with
      recovery := checkinRun _
      challenge := requestPlainJson
      username := username
      redeem := fun _ _ _ hp => hp.elim } spent

theorem acquireToken (now : Int) (spent : Bool) : After bearerLaw h (acquireToken cfg scope now spent)
    fun h' a => ∀ token, a.outcome = .ok token → Sourced h' scope token := by
  have hfail : ∀ {h : List Event} {a : Acquired}, (∃ rc, a.outcome = .error rc) → After bearerLaw h (Pure.pure a : Cmd Acquired)
      fun h' a => ∀ token, a.outcome = .ok token → Sourced h' scope token := by
    rintro h a ⟨rc, hrc⟩
    refine .pure fun token ht => ?_
    rw [hrc] at ht
    cases ht
  refine .bind (.of_keeps (neutral.ask rfl)) fun h₁ init _ => ?_
  split
  · refine .bind (.of_yields (.attempt (neutral.ctxFail ..)) (.attempt (yields_ctxFail _ _ _ _ fun _ => False))) ?_
    intro h₂ r hr
    cases r with
    | ok t => exact (hr t rfl).elim
    | error rc => exact hfail ⟨rc, rfl⟩
  · refine .bind (.of_keeps (fetchChallenge spent)) fun h₂ p _ => ?_
    obtain ⟨r, spent⟩ := p
    cases r with
    | error rc => exact hfail ⟨rc, rfl⟩
    | ok challenge =>
      dsimp only
      exact .bind (.attempt (answerChallenge now challenge)) fun h₃ r hr => .pure hr

/-- The recovery keeps a token that is there, and acquires one for the scope where there was none. -/
theorem recoverDrift {a : Acquired} (ha : ∀ token, a.outcome = .ok token → Sourced h scope token) :
    After bearerLaw h (recoverDrift cfg scope a) fun h' r => ∀ token, r = .ok token → Sourced h' scope token := by
  refine .bind .get fun h₁ s ⟨he, _⟩ => ?_
  subst he
  split
  · refine .ite (fun _ => .bind (.of_keeps (.attempt (checkinRun _))) fun h₂ crc _ => ?_) fun _ => .pure ha
    split
    · refine .bind (.of_keeps (timed.askClock rfl)) fun h₃ now _ => ?_
      exact .bind (acquireToken now true) fun h₄ again hag => .pure hag
    · refine .bind (.of_keeps .get) fun h₃ s _ => ?_
      refine (After.of_yields (.attempt (neutral.ctxFail ..)) (.attempt (yields_ctxFail _ _ _ _ fun _ => False))).mono ?_
      exact fun h' r hr token ht => (hr token ht).elim
  · exact .pure ha

theorem proactiveCheckin : Keeps kept (proactiveCheckin cfg) := by
  refine .bind .get fun s => .ite (fun _ => .bind (.modify fun _ => still rfl rfl) fun _ => ?_) fun _ => .pure _
  refine .bind (.attempt (checkinRun _)) fun r => ?_
  split
  · exact .pure _
  · exact .pure _

/-- The engine hands a token out. -/
theorem granted (hs : Sourced h scope token) {found : Option (Int × Int)}
    (hf : ∀ exp now, found = some (exp, now) → now < exp ∧ latest Event.authReading h = some now) :
    After bearerLaw h (EncedoHem.mark (.granted scope token found)) fun h' _ => AtHand h' scope token := by
  refine (After.of_draws (mark rfl) (V := fun es _ => es = [⟨.mark (.granted scope token found), ()⟩])
    ⟨fun _ => wp_mark.mpr fun _ _ => rfl⟩).mono ?_
  rintro _ _ ⟨_, rfl, rfl⟩
  exact ⟨hs.append (.single rfl), h, [], found, rfl, .nil, hf⟩

theorem lifted {r : Except Rc Bytes} (hr : ∀ token, r = .ok token → Sourced h scope token) :
    After bearerLaw h (liftRc r) fun h' token => Sourced h' scope token := by
  cases r with
  | ok a => exact .pure (hr a rfl)
  | error rc => exact .throw rc

theorem acquirePassphrase (now : Int) :
    After bearerLaw h (acquirePassphrase cfg scope now) fun h' token => AtHand h' scope token := by
  refine .bind (.of_keeps (mark rfl)) fun h₁ _ _ => .bind (.of_keeps proactiveCheckin) fun h₂ failed _ => ?_
  refine .bind (acquireToken now false) fun h₃ a ha => .bind (recoverDrift ha) fun h₄ r hr => ?_
  refine .bind (lifted hr) fun h₅ token hs => ?_
  refine .bind (carried hs (neutral.breadcrumb failed) (steady.breadcrumb failed)) fun h₆ _ hs₆ => ?_
  exact .bind (granted hs₆ fun _ _ hf => by cases hf) fun h₇ _ ha => .pure ha

theorem cacheSeed (hs : Sourced h scope token) :
    After bearerLaw h (authCacheSeed scope token) fun _ _ => True := by
  have hneed : Steady EncedoHem.needAuth := ⟨fun s => wp_needAuth (fun _ _ _ he => by cases he)
    (fun es _ hc e he => Event.turns_of_loud (Event.loud_of_quiet (hc e he)))
    fun es _ _ hc e he => Event.turns_of_loud (Event.loud_of_quiet (hc e he))⟩
  refine .bind (carried hs needAuth hneed) fun h₁ _ hs₁ => ?_
  refine .bind (carried hs₁ (neutral.peekClaim ..) (steady.peekClaim ..)) fun h₂ exp hs₂ => ?_
  refine .bind (carried hs₂ (timed.expiryOr exp) (steady.expiryOr exp)) fun h₃ e hs₃ => ?_
  exact .bind (cachePut hs₃ _) fun h₄ put _ => .ite (fun _ => .pure trivial) fun _ => failed

end

/-- A request for a confirmation that succeeds was accepted by the device for the scope. -/
theorem begun_extRequest (epk scope : Bytes) (ctxStr note : Option Bytes) :
    Draws (extRequest cfg epk scope ctxStr note) fun es _ => Begun es scope := by
  have hfail : ∀ {fmt : List Piece}, Draws (ctxFail .arg 0 none fmt : Cmd ExtRequestInfo) fun es _ => Begun es scope :=
    ⟨fun _ => wp_ctxFail_of fun _ _ _ _ _ _ hr => by cases hr⟩
  have hright : ∀ (es es' : List Event) (_ : ExtRequestInfo), Begun es' scope → Begun (es ++ es') scope :=
    fun _ _ _ hb => hb.right
  refine .bind hright fun _ => .ite (fun _ => hfail) fun _ => .ite (fun _ => hfail) fun _ => ?_
  refine .ite (fun _ => hfail) fun _ => .ite (fun _ => hfail) fun _ => ?_
  simp only [printObject, Cmd.bind_assoc, Cmd.pure_bind]
  refine .bind hright fun _ => .bind_of (answered_extLoginPost _ _) fun es root ha => .any fun es' _ => ?_
  obtain ⟨pre, post, req, resp, b, rfl, -, hreq, hbody, hf, -⟩ := ha
  exact Begun.left ⟨req, resp, _, by simp, hreq.1, hreq.2, hbody, by simp, hf⟩

theorem begun_confirmFirePush (url : Option Bytes) (scope : Bytes) (ctxStr note : Option Bytes) :
    Draws (confirmFirePush cfg url scope ctxStr note) fun es p => ∀ id, p.outcome = .ok id → Begun es scope := by
  have hfail : ∀ {rc : Rc} {es : List Event}, Draws (Pure.pure ⟨.error rc, none⟩ : Cmd Push)
      fun es' p => ∀ id, p.outcome = .ok id → Begun (es ++ es') scope :=
    .pure fun id hid => by cases hid
  refine .bind_any fun es session => ?_
  split
  · exact hfail
  · rename_i epk
    refine .bind_of (begun_extRequest epk scope ctxStr note).attempt fun es' req hreq => ?_
    split
    · refine .pure fun id hid => ?_
      cases hid
    · exact .any fun es'' p id _ => (hreq _ rfl).left.right

theorem begun_confirmBegin (url : Option Bytes) (scope : Bytes) (ctxStr note : Option Bytes) :
    Draws (confirmBegin cfg url scope ctxStr note) fun es _ => Begun es scope := by
  have hright : ∀ {α : Type} (es es' : List Event) (_ : α), Begun es' scope → Begun (es ++ es') scope :=
    fun _ _ _ hb => hb.right
  refine .bind hright fun c => .bind_of (begun_confirmFirePush url scope ctxStr note) fun es push hpush => ?_
  have hover : Draws (recoverPush cfg url scope ctxStr note push)
      fun es r => ∀ id, r = .ok id → push.outcome = .ok id ∨ Begun es scope := by
    refine .bind_any fun _ s => ?_
    split
    · refine .ite (fun _ => .bind_any fun _ drift => ?_) fun _ => .pure fun _ hid => .inl hid
      refine .ite (fun _ => .bind_any fun _ crc => ?_) fun _ => .pure fun _ hid => .inl hid
      split
      · refine .bind_of (begun_confirmFirePush url scope ctxStr note) fun es again hagain => .pure fun id hid => ?_
        exact .inr (hagain id hid).left.right.right.right
      · exact .pure fun _ hid => .inl hid
    · exact .pure fun _ hid => .inl hid
  refine .bind_of hover fun es' r hr => ?_
  split
  · exact .throw _ _
  · rename_i id
    refine .any fun es'' _ => ?_
    rcases hr id rfl with hid | hb
    · exact (hpush id hid).left
    · exact hb.left.right

/-- What a reply that is redeemed hands out. -/
theorem answered_extToken (authreply : Bytes) : Draws (extToken cfg authreply) fun es token =>
    ∃ body root, Answered .post extTokenPath body es root ∧ root.getString (lit "token") = some token := by
  have hfail : ∀ {rc : Rc} {status : Int} {fmt : List Piece} {V : List Event → Bytes → Prop},
      Draws (ctxFail rc status none fmt : Cmd Bytes) V :=
    ⟨fun _ => wp_ctxFail_of fun _ _ _ _ _ _ hr => by cases hr⟩
  have hafter : ∀ (es es' : List Event) (token : Bytes),
      (∃ body root, Answered .post extTokenPath body es' root ∧ root.getString (lit "token") = some token) →
      ∃ body root, Answered .post extTokenPath body (es ++ es') root ∧ root.getString (lit "token") = some token :=
    fun _ _ _ ⟨body, root, ha, ht⟩ => ⟨body, root, ha.after, ht⟩
  refine .bind hafter fun _ => .ite (fun _ => hfail) fun _ => .bind hafter fun body => ?_
  refine .bind_of (answered_extLoginPost _ _).attempt fun es r hr => ?_
  refine ⟨fun s => ?_⟩
  rw [wp_bind, wp_getCtx]
  dsimp only
  cases r with
  | error rc =>
    refine (Draws.run (.ite (fun _ => hfail) fun _ => .ite (fun _ => hfail) fun _ => .throw _ _) s)
  | ok root =>
    dsimp only
    split
    · exact hfail.run s
    · rename_i token ht
      rw [wp_bind]
      refine wp_need_of (fun es' hc => wp_pure.mpr fun t htoken => ?_) fun _ _ _ _ _ hr => by cases hr
      rw [← Except.ok.inj htoken]
      refine ⟨some body, root, ?_, ht⟩
      simpa using (hr root rfl).calm hc

section
variable {h : List Event} {scope token : Bytes}

theorem redeeming {m : Mark} (hm : Event.ends ⟨.mark m, ()⟩ = false) :
    After bearerLaw h (EncedoHem.mark m) fun h' _ => h' = h ++ ([⟨.mark m, ()⟩] : List Event) :=
  (After.of_draws (mark hm) (V := fun es _ => es = ([⟨.mark m, ()⟩] : List Event)) ⟨fun _ => wp_mark.mpr fun _ _ => rfl⟩).mono
    fun _ _ ⟨_, he, hmark⟩ => hmark ▸ he

/-- A reply is redeemed for the scope that the confirmation was begun for. -/
theorem confirmRedeem (hb : Begun h scope) (authreply : Bytes) :
    After bearerLaw h (confirmRedeem cfg scope authreply) fun _ _ => True := by
  refine .bind (redeeming rfl) fun h₁ _ he => ?_
  subst he
  have hkeep : Keeps kept (extToken cfg authreply) := machinery.pushing.extToken _
  refine .bind (.and (.of_draws hkeep (answered_extToken authreply)) (.of_emits hkeep (steady_extToken authreply))) ?_
  rintro h₂ token ⟨⟨es, rfl, body, root, ha, ht⟩, es', he, hsteady⟩
  obtain rfl := List.append_cancel_left he
  obtain ⟨pre, post, req, resp, rfl, hpost, -, hands⟩ := ha.hands ht
  have hs : Sourced (h ++ [⟨.mark (.redeem scope), ()⟩] ++ (pre ++ ⟨.send none req, .done resp⟩ :: post)) scope token :=
    .redeemed h pre post req resp (by simp) hb hands
      (fun e hm => hsteady e (List.mem_append_left _ hm)) (lasting_quiet hpost)
  exact .bind (cacheSeed hs) fun _ _ _ => .pure trivial

/-- The same law after the histories in which a confirmation was begun for the scope. -/
abbrev begunKept (scope : Bytes) : Contract Op Ans Ctx := (bearerLaw.given (Begun · scope)).kept

theorem begun_rel {s s' : Ctx} {es : List Event} (hr : kept.rel s es s') : (begunKept scope).rel s es s' :=
  Law.given_rel (fun _ _ hb => hb.left) hr

theorem begun_pushing (scope : Bytes) : Pushing cfg (begunKept scope) where
  quiet s e he := begun_rel (neutral.quiet s e he)
  error s d := begun_rel (neutral.error s d)
  broker method url subpath body := (machinery.broker method url subpath body).mono fun _ _ _ => begun_rel
  extPost path body hp := (machinery.extPost path body hp).mono fun _ _ _ => begun_rel

theorem begun_confirmPoll {c : Confirm} (hc : c.scope = scope) : Keeps (begunKept scope) (confirmPoll cfg c) :=
  (begun_pushing scope).confirmPoll fun authreply =>
    After.given (fun _ _ hb => hb.left) fun _ hb => confirmRedeem (hc ▸ hb) authreply

theorem begun_confirmWait (c : Confirm) (timeoutMs : Int) :
    Keeps (begunKept c.scope) (confirmWait cfg c timeoutMs) :=
  (begun_pushing c.scope).confirmWait fun _ hc => begun_confirmPoll hc

/-- Whatever is done, what was begun stays begun. -/
theorem begun_after {α : Type} {x : Cmd α} {V : List Event → α → Prop} (hb : Begun h scope) (hx : After bearerLaw h x V) :
    After bearerLaw h x fun h' a => V h' a ∧ Begun h' scope :=
  ⟨fun s hs => wp_mono (hx.run s hs) fun _ _ _ hk => ⟨hk.1, hk.2.1, fun a ha => ⟨hk.2.2 a ha, hb.left⟩⟩⟩

theorem recoverPush (url : Option Bytes) (scope : Bytes) (ctxStr note : Option Bytes) (push : Push) :
    Keeps kept (recoverPush cfg url scope ctxStr note push) := by
  refine .bind .get fun s => ?_
  split
  · refine .ite (fun _ => .bind (timed.authreqDrift _) fun drift => ?_) fun _ => .pure _
    refine .ite (fun _ => .bind (.attempt (checkinRun _)) fun crc => ?_) fun _ => .pure _
    split
    · exact .bind (machinery.pushing.confirmFirePush ..) fun _ => .pure _
    · exact .pure _
  · exact .pure _

/-- A handle that begins is for the scope it was asked for, and the device knows of it. -/
theorem confirmBegin (url : Option Bytes) (scope : Bytes) (ctxStr note : Option Bytes) :
    After bearerLaw h (confirmBegin cfg url scope ctxStr note) fun h' c => c.scope = scope ∧ Begun h' c.scope := by
  have hkeep : Keeps kept (EncedoHem.confirmBegin cfg url scope ctxStr note) :=
    machinery.pushing.confirmBegin fun _ => recoverPush ..
  refine (After.and (.of_yields hkeep (Confirming.yields_confirmBegin url scope ctxStr note))
    (.of_draws hkeep (begun_confirmBegin url scope ctxStr note))).mono ?_
  rintro _ c ⟨rfl, es, rfl, hb⟩
  exact ⟨rfl, hb.right⟩

/-- An entry that is found has its source. -/
theorem found {s : Ctx} (hs : bearerLaw.inv h s) {e : TokenEntry} (he : s.auth.bind (·.cacheFind scope) = some e) :
    Sourced h scope e.token := by
  obtain ⟨a, ha, hf⟩ := Option.bind_eq_some_iff.mp he
  have hscope : e.scope = scope := by simpa using List.find?_some hf
  exact hscope ▸ hs.1 a ha e (List.mem_of_find?_eq_some hf)

theorem acquireMobile : After bearerLaw h (acquireMobile cfg scope) fun h' token => AtHand h' scope token := by
  refine .bind (.of_keeps (mark rfl)) fun h₁ _ _ => .bind (.of_keeps proactiveCheckin) fun h₂ _ _ => ?_
  refine .bind (confirmBegin ..) fun h₃ c ⟨_, hb⟩ => .bind (.of_given (begun_confirmWait c _) hb) fun h₄ p _ => ?_
  obtain ⟨r, c'⟩ := p
  refine .bind (.of_keeps (Neutral.liftRc r)) fun h₅ _ _ => .bind .get fun h₆ s ⟨he, hs⟩ => ?_
  subst he
  split
  · exact failed
  · rename_i e hfind
    exact .bind (granted (found hs hfind) fun _ _ hf => by cases hf) fun h₇ _ ha => .pure ha

/-- The engine hands out tokens that are at hand for the scope. -/
theorem ensureToken : After bearerLaw h (ensureToken cfg scope) fun h' token => AtHand h' scope token := by
  refine .bind (.of_draws (timed.askClock rfl) (V := fun es now => es = ([⟨.authNow, now⟩] : List Event))
    ⟨fun _ => wp_authNow.mpr fun now _ hn => by rw [Except.ok.inj hn]⟩) fun h₁ now ⟨_, he, hread⟩ => ?_
  subst hread he
  refine .bind .get fun h₂ s ⟨he, hs⟩ => ?_
  subst he
  split
  · rename_i e hfresh
    obtain ⟨hfind, hlt⟩ := Option.filter_eq_some_iff.mp hfresh
    refine .bind (granted (found hs hfind) fun exp now' hf => ?_) fun h₃ _ ha => .pure ha
    obtain ⟨rfl, rfl⟩ := Prod.mk.inj (Option.some.inj hf)
    exact ⟨by simpa using hlt, latest_append_some rfl⟩
  · split
    · refine .ite (fun _ => acquireMobile) fun _ => ?_
      split
      · exact acquirePassphrase now
      · exact failed
    · exact failed

/-- A token that is at hand stays so while the session lasts. -/
theorem holding {α : Type} {x : Cmd α} (ha : AtHand h scope token) (hk : Keeps kept x) (hx : Steady x) :
    After bearerLaw h x fun h' _ => AtHand h' scope token :=
  (After.of_emits hk hx).mono fun _ _ ⟨_, he, hes⟩ => he ▸ ha.append fun e hm => Event.ends_of_turns (hes e hm)

/-- A dispatch under the scope with a token that is at hand. -/
theorem doSend (ha : AtHand h scope token) {method : Method} {path : Bytes} {body : Option Bytes} {ov : TlsOverride}
    {fresh : Bool} : After bearerLaw h (doSend cfg (some scope) method path body (some (lit "Bearer " ++ token)) ov fresh)
      fun h' _ => AtHand h' scope token := by
  refine .bind (holding ha (neutral.sleepMs _) (steady.sleepMs _)) fun h₁ _ ha₁ => ⟨fun s hs => wp_send.mpr fun a => ?_⟩
  have hl : Lasting [⟨.send (some scope) (buildRequest cfg method path body (some (lit "Bearer " ++ token)) ov fresh), a⟩] :=
    .single rfl
  refine ⟨⟨fun b hb e he => (hs.1 b hb e he).append hl, fun c hc => (hs.2 c hc).left⟩, .single ⟨token, rfl, ha₁⟩, ?_⟩
  exact fun _ _ => ha₁.append hl

theorem recordExpired {α : Type} {fmt : List Piece} {rc : Rc} {V : List Event → α → Prop} :
    After bearerLaw h (record 0 none fmt >>= fun _ => modifyCtx (fun s => s.setTlsExpired true) >>= fun _ =>
      throwRc rc : Cmd α) V :=
  .bind (.of_keeps (neutral.record ..)) fun _ _ _ => .bind (.of_keeps (neutral.setError _)) fun _ _ _ => .throw rc

theorem certRefreshed : After bearerLaw h (modifyCtx fun s => { s with certRefreshed := true }) fun h' _ => h' = h := by
  refine ⟨fun s hs => wp_modifyCtx.mpr ?_⟩
  rw [List.append_nil]
  exact ⟨hs, .nil, fun _ _ => rfl⟩

/-- The token is at hand for the resend as it was for the dispatch. -/
theorem recoverCert (ha : AtHand h scope token) {method : Method} {path : Bytes} {body : Option Bytes} {ov : TlsOverride}
    {a : Answer} : After bearerLaw h (recoverCert cfg (recoveryCheckin cfg)
      (EncedoHem.doSend cfg (some scope) method path body (some (lit "Bearer " ++ token)) ov true) path ov a)
      fun h' _ => AtHand h' scope token := by
  refine .bind .get fun h₁ s ⟨he, _⟩ => ?_
  subst he
  split
  · refine .ite (fun _ => .pure ha) fun _ => ?_
    refine .bind (holding ha (.attempt (checkinRun _)) (.attempt (steady_checkinRun _))) fun h₂ crc ha₂ => ?_
    split
    · exact recordExpired
    · refine .bind (doSend ha₂) fun h₃ a' ha₃ => ?_
      split
      · exact .bind certRefreshed fun h₄ _ he => .pure (he ▸ ha₃)
      · exact recordExpired
      · exact .pure ha₃
  · exact .pure ha

theorem makeBearer (ha : AtHand h scope token) : After bearerLaw h (makeBearer token)
    fun h' bearer => bearer = lit "Bearer " ++ token ∧ AtHand h' scope token :=
  .bind (holding ha neutral.need steady.need) fun _ _ ha => .pure ⟨rfl, ha⟩

theorem authInvalidate : Keeps kept (authInvalidate scope) := modifyAuth fun _ _ he => List.mem_of_mem_eraseP he

/-- The retry carries what the engine hands out for it. -/
theorem retryAuth {method : Method} {path : Bytes} {body : Option Bytes} {ov : TlsOverride} {r : Response} :
    After bearerLaw h (retryAuth (EncedoHem.ensureToken cfg) (fun bearer =>
      EncedoHem.doSend cfg (some scope) method path body bearer ov true) path (some scope) r) fun _ _ => True := by
  refine .ite (fun _ => .pure trivial) fun _ => .bind (.of_keeps authInvalidate) fun h₁ _ _ => ?_
  refine .bind ensureToken fun h₂ token ha => .bind (makeBearer ha) fun h₃ bearer ⟨hb, ha₃⟩ => ?_
  subst hb
  refine .bind (doSend ha₃) fun h₄ a _ => ?_
  split
  · exact .pure trivial
  · exact failed

/-- A request to the device, under whatever scope. -/
theorem requestRaw {method : Method} {path : Bytes} {body sc : Option Bytes} :
    Keeps kept (requestRaw cfg method path body sc .default) := by
  cases sc with
  | none => exact requestPlain
  | some scope =>
    refine .ite (fun _ => neutral.ctxFail ..) fun _ => After.keeps (V := fun _ _ => True) fun h => ?_
    refine .bind (W := fun h' bearer => ∃ token, bearer = some (lit "Bearer " ++ token) ∧ AtHand h' scope token) ?_ ?_
    · refine .bind ensureToken fun h₁ token ha => .bind (makeBearer ha) fun h₂ bearer ⟨hb, ha₂⟩ => ?_
      exact .pure ⟨token, by rw [hb], ha₂⟩
    · rintro h₁ bearer ⟨token, rfl, ha⟩
      refine .bind (doSend ha) fun h₂ a ha₂ => .bind (recoverCert ha₂) fun h₃ a _ => ?_
      refine .bind (.of_keeps (neutral.requireDone ..)) fun h₄ r _ => ?_
      exact .bind retryAuth fun h₅ r _ => .of_keeps (neutral.judge ..)

end

/-- A session that ends leaves no bearer. -/
theorem reset {g : Ctx → Ctx} (m : Mark) (hc : ∀ s a, (g s).auth = some a → a.cache = [])
    (hh : ∀ s, (g s).handles = s.handles) : Keeps kept (modifyCtx g >>= fun _ => EncedoHem.mark m) := by
  refine ⟨fun s => ?_⟩
  rw [wp_bind, wp_modifyCtx]
  refine wp_mark.mpr fun h hs => ⟨⟨fun a ha e he => ?_, fun c hmem => ?_⟩, .single trivial⟩
  · rw [hc s a ha] at he
    cases he
  · rw [hh s] at hmem
    exact (hs.2 c hmem).left

theorem loginMarked (m : Mark) (passphrase : Bytes) : Keeps kept (loginMarked cfg m passphrase) :=
  .bind neutral.clearError fun _ => .bind neutral.need fun _ => .bind needAuth fun a =>
    reset m (fun _ _ ha => by rw [← Option.some.inj ha]; rfl) fun _ => rfl

theorem loginMobile : Keeps kept loginMobile :=
  .bind neutral.clearError fun _ => .bind needAuth fun a =>
    reset .reset (fun _ _ ha => by rw [← Option.some.inj ha]; rfl) fun _ => rfl

theorem logout : Keeps kept logout :=
  .bind neutral.clearError fun _ => reset .reset (fun _ _ ha => by cases ha) fun _ => rfl

theorem authInvalidateAll : Keeps kept authInvalidateAll := by
  refine reset .reset (fun s a ha => ?_) fun _ => rfl
  obtain ⟨b, -, rfl⟩ := Option.map_eq_some_iff.mp ha
  rfl

/-- What opening a session shows: its mark, and neither an end nor a redemption before it. -/
theorem opened (m : Mark) (passphrase : Bytes) : Draws (EncedoHem.loginMarked cfg m passphrase)
    fun es _ => ∃ mid, es = mid ++ ([⟨.mark m, ()⟩] : List Event) ∧ ∀ e ∈ mid, Event.turns e = false := by
  refine ⟨fun s => ?_⟩
  have hquiet : ∀ {es : List Event}, Calm es → ∀ e ∈ es, e.turns = false :=
    fun hc e he => Event.turns_of_loud (Event.loud_of_quiet (hc e he))
  unfold EncedoHem.loginMarked
  rw [wp_bind, wp_clearError, wp_bind]
  refine wp_need_of (fun es hc => ?_) fun _ _ _ _ _ hr => by cases hr
  have hend : ∀ (es' : List Event) (a : Auth) (s₁ : Ctx), Calm es' → wp (modifyCtx (fun s => s.setAuth <| some
      { a.cacheClear.scrubPassphrase with
        username := none
        passphrase := some passphrase
        passphraseLen := passphrase.length
        retain := !cfg.noCredentialRetention
        mobile := false }) >>= fun _ => EncedoHem.mark m) (fun es'' r _ => ∀ u, r = .ok u →
        ∃ mid, [] ++ (es ++ (es' ++ es'')) = mid ++ ([⟨.mark m, ()⟩] : List Event) ∧ ∀ e ∈ mid, Event.turns e = false) s₁ := by
    intro es' a s₁ hc'
    rw [wp_bind, wp_modifyCtx]
    refine wp_mark.mpr fun _ _ => ⟨es ++ es', by simp, fun e he => ?_⟩
    rcases List.mem_append.mp he with he | he
    · exact hquiet hc e he
    · exact hquiet hc' e he
  rw [wp_bind]
  refine wp_needAuth (fun a _ => hend [] a _ .nil) (fun es' _ hc' => hend es' _ _ hc') fun _ _ _ _ _ hr => by cases hr

section
variable {h : List Event} {scope : Bytes}

/-- The bearer of a personalisation goes into the session that it opens. -/
theorem initSession {token : Bytes} {q : InitStrings} {pre post : List Event} {req : Request} {resp : Response}
    (place : h = pre ++ ⟨.send none req, .done resp⟩ :: post) (hands : Hands req resp .post authInitPath token)
    (hpost : ∀ e ∈ post, e.loud = none) : After bearerLaw h (initSession cfg q token) fun _ _ => True := by
  refine .bind (.of_draws (loginMarked _ _) (opened _ _)) fun h₁ _ ⟨es, he, mid, hmid, hm⟩ => ?_
  refine cacheSeed (.seeded pre (post ++ mid) [] req resp rfl ?_ hands (fun e hm' => ?_) .nil)
  · rw [he, hmid, place]
    simp
  · rcases List.mem_append.mp hm' with hm' | hm'
    · exact Event.turns_of_loud (hpost e hm')
    · exact hm e hm'

theorem initCommit {q : InitStrings} {jwt : Bytes} {out : Bool} :
    After bearerLaw h (initCommit cfg q jwt out) fun _ _ => True := by
  refine .bind (.of_keeps neutral.need) fun h₁ _ _ => ?_
  refine .bind (.of_draws (.attempt requestPlainJson) (answered_requestPlainJson ..).attempt) ?_
  rintro h₂ r ⟨es, he, hr⟩
  cases r with
  | error rc => exact .of_keeps (neutral.initExplain ..)
  | ok root =>
    dsimp only
    split
    · rename_i token instanceid ht hi
      obtain ⟨pre, post, req, resp, rfl, hpost, -, hands⟩ := (hr root rfl).hands ht
      have hplace : h₂ = (h₁ ++ pre) ++ ⟨.send none req, .done resp⟩ :: post := by rw [he, List.append_assoc]
      exact .bind (initSession hplace hands hpost) fun h₃ _ _ => .of_keeps (neutral.initOut ..)
    · exact failed

theorem deviceInit (p : InitParams) (out : Bool) : Keeps kept (deviceInit cfg p out) := by
  refine .bind neutral.clearError fun _ => ?_
  split
  · exact neutral.ctxFail ..
  · refine .ite (fun _ => neutral.ctxFail ..) fun _ => .bind (neutral.ask rfl) fun init => ?_
    split
    · exact neutral.ctxFail ..
    · refine .bind (.attempt requestPlainJson) fun challenge => ?_
      split
      · exact neutral.initExplain ..
      · unfold initAnswer
        split
        · exact neutral.ctxFail ..
        · split
          · exact neutral.ctxFail ..
          · refine .bind (.attempt (timed.initJwt ..)) fun jwt => ?_
            split
            · exact neutral.ctxFail ..
            · exact After.keeps fun _ => initCommit

/-- A change to the handles leaves those that were there, and handles that were begun. -/
theorem handles {f : Ctx → Ctx} (ha : ∀ s, (f s).auth = s.auth)
    (hh : ∀ s c, some c ∈ (f s).handles → some c ∈ s.handles ∨ Begun h c.scope) :
    After bearerLaw h (modifyCtx f) fun _ _ => True := by
  refine ⟨fun s hs => wp_modifyCtx.mpr ?_⟩
  rw [List.append_nil]
  refine ⟨⟨fun a hauth => hs.1 a (ha s ▸ hauth), fun c hc => ?_⟩, .nil, fun _ _ => trivial⟩
  rcases hh s c hc with hc | hb
  · exact hs.2 c hc
  · exact hb

theorem setHandle {i : Nat} {c : Option Confirm} (hb : ∀ d, c = some d → Begun h d.scope) :
    After bearerLaw h (modifyCtx (·.setHandle i c)) fun _ _ => True :=
  handles (fun _ => rfl) fun _ d hd => (List.mem_or_eq_of_mem_set hd).imp_right fun he => hb d he.symm

theorem takeHandle (i : Nat) : After bearerLaw h (takeHandle i) fun h' c => Begun h' c.scope := by
  refine .bind .get fun h₁ s ⟨he, hs⟩ => ?_
  subst he
  split
  · exact .throw _
  · rename_i c hc
    exact .pure (hs.2 c (List.mem_of_getElem? (Option.join_eq_some_iff.mp hc)))

/-- A call on a handle works for the scope the handle was begun for, and leaves the handle to it. -/
theorem onHandle {β : Type} {i : Nat} {f : Confirm → Cmd (Except Rc β × Confirm)}
    (hf : ∀ c, Keeps (begunKept c.scope) (f c)) (hy : ∀ c, Yields (f c) fun p => p.2.scope = c.scope) :
    After bearerLaw h (EncedoHem.takeHandle i >>= fun c => f c >>= fun p =>
      modifyCtx (·.setHandle i (some p.2)) >>= fun _ => liftRc p.1) fun _ _ => True := by
  refine .bind (takeHandle i) fun h₁ c hb => ?_
  refine .bind ((begun_after hb (.of_given (hf c) hb)).and_yields (hy c)) fun h₂ p ⟨⟨_, hb₂⟩, hp⟩ => ?_
  refine .bind (setHandle fun d hd => ?_) fun h₃ _ _ => .of_keeps (Neutral.liftRc _)
  rw [← Option.some.inj hd, hp]
  exact hb₂

theorem yields_confirmWait (c : Confirm) (timeoutMs : Int) :
    Yields (EncedoHem.confirmWait cfg c timeoutMs) fun p => p.2.scope = c.scope := by
  have hloop : ∀ rounds elapsed (c' : Confirm), c'.scope = c.scope →
      Yields (confirmWaitLoop cfg timeoutMs rounds elapsed c') fun p => p.2.scope = c.scope := by
    intro rounds
    induction rounds with
    | zero => exact fun _ _ hc => .pure hc
    | succ rounds ih =>
      refine fun elapsed c' hc => .bind_of (Pushing.yields_confirmPoll c') fun p hp => ?_
      obtain ⟨r, c''⟩ := p
      have hsame : c''.scope = c.scope := hp.1.trans hc
      dsimp only
      split
      · exact .pure hsame
      · exact .pure hsame
      · exact .ite (fun _ => .bind fun _ => .pure hsame) fun _ => .bind fun _ => ih _ _ hsame
  exact .ite (fun _ => .pure rfl) fun _ => hloop _ _ c rfl

end

/-- Every call of the interface keeps the law. -/
theorem prim {α : Type} {x : Cmd α} (hx : Prim cfg α x) : Keeps kept x := by
  cases hx with
  | part _ _ hp => exact hp.keeps machinery
  | device method path body scope => exact requestRaw
  | cloud method url body =>
    exact neutral.requestRawWith_plain (fun _ => still rfl rfl) (fun h => by cases h) fun _ _ a => plain_send a
  | checkin => exact checkinRunInfo _
  | login passphrase => exact loginMarked _ _
  | loginMobile => exact loginMobile
  | logout => exact logout
  | authInvalidateAll => exact authInvalidateAll
  | deviceInit p out => exact deviceInit p out
  | confirmBegin url scope ctxStr note =>
    refine After.keeps (V := fun _ _ => True) fun h => .bind (confirmBegin ..) fun h₁ c ⟨_, hb⟩ => ?_
    refine .bind .get fun h₂ s ⟨he, _⟩ => .bind (handles (fun _ => rfl) fun s' d hd => ?_) fun h₃ _ _ => .pure trivial
    rcases List.mem_append.mp hd with hd | hd
    · exact .inl hd
    · obtain rfl := Option.some.inj (List.mem_singleton.mp hd)
      exact .inr (he ▸ hb)
  | confirmPoll i =>
    exact After.keeps fun h => onHandle (fun c => begun_confirmPoll rfl) fun c =>
      ⟨fun s => wp_mono ((Pushing.yields_confirmPoll c).run s) fun _ _ _ hp p hr => (hp p hr).1⟩
  | confirmWait i timeoutMs =>
    exact After.keeps fun h => onHandle (fun c => begun_confirmWait c timeoutMs) fun c => yields_confirmWait c timeoutMs
  | confirmCancel i => exact After.keeps fun h => setHandle fun _ hd => by cases hd

end Sourcing

section
variable {cfg : Config} {calls : List (List Event)} {s : Ctx}

theorem Calls.bearers (h : Calls cfg calls s) : bearerLaw.inv calls.flatten s ∧ Obeys bearerLaw [] calls.flatten := by
  induction h with
  | new =>
    refine ⟨⟨fun a ha => ?_, fun c hc => absurd hc List.not_mem_nil⟩, .nil⟩
    cases ha
  | call h x hr ih =>
    obtain ⟨hs, ho⟩ := (x.keeps fun _ _ hx => Sourcing.prim hx).run _ _ _ _ hr _ ih.1
    rw [List.flatten_append, List.flatten_singleton]
    exact ⟨hs, ih.2.append ho⟩

/-- In every sequence of calls on a context each request under a scope carries one bearer, a token that the
engine handed out for that very scope, unexpired if it was a cached one, and that the device had answered with:
to the post of a login token whose claims name the scope, to the redemption of a confirmation that the device had
accepted for the scope, or to its own personalisation, and all of this in the session that still lasts. -/
theorem bearers_sourced (h : Calls cfg calls s) (pre post : List Event) (scope : Bytes) (req : Request) (a : Answer)
    (hsent : calls.flatten = pre ++ ⟨.send (some scope) req, a⟩ :: post) :
    ∃ token, req.Carries token ∧ Sourced pre scope token ∧ HandedOut pre scope token := by
  obtain ⟨token, hc, ha⟩ := h.bearers.2 pre _ post hsent
  exact ⟨token, hc, ha.sourced, ha.handed⟩

end

/-- A device that lets the session in, and answers a read of the settings. -/
def settingsAnswers : List Answer :=
  [.object [("eid", .str (lit "e")), ("spk", .str (lit "AAAAAAAAAAAAAAAAAAAAAAAAAAAAAAAAAAAAAAAAAAA=")),
      ("jti", .str (lit "j")), ("exp", .int 65)],
    .object [("token", .str (lit "t"))], .object []]

/-- A login, and a read of the settings. -/
def settingsCalls : List (List Event) :=
  [scriptEvents loginStart.cmd .initial 5 [],
    scriptEvents settingsRead.cmd (scriptState loginStart.cmd .initial 5 []) 5 settingsAnswers]

theorem settings_bearer_sourced : ∃ pre post scope req a token, settingsCalls.flatten =
    pre ++ ⟨.send (some scope) req, a⟩ :: post ∧ req.Carries token ∧ Sourced pre scope token ∧ HandedOut pre scope token := by
  have hcalls : Calls .standard settingsCalls _ :=
    .call (.call .new loginStart (script_runs _ _ 5 [])) settingsRead (script_runs _ _ 5 settingsAnswers)
  have hsent : ∃ e ∈ settingsCalls.flatten, e.scoped = true := by decide +kernel
  obtain ⟨⟨op, ans⟩, he, hs⟩ := hsent
  obtain ⟨pre, post, hsplit⟩ := List.append_of_mem he
  unfold Event.scoped at hs
  split at hs
  · rename_i scope req a heq
    cases heq
    obtain ⟨token, hc, hsource, hhanded⟩ := bearers_sourced hcalls pre post scope req _ hsplit
    exact ⟨pre, post, scope, req, _, token, hsplit, hc, hsource, hhanded⟩
  · cases hs

end EncedoHem
