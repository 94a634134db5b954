import EncedoHem.System
import EncedoHem.Proofs.Expiry

namespace EncedoHem
open Text Dialogue

/-- The commit of an initialisation has been answered with an object that carries the strings
`token` and `instanceid`. -/
structure Committed (es : List Event) (req : Request) (resp : Response) (b : Bytes) (root : Json)
    (token instanceid : Bytes) : Prop where
  answered : (⟨.send none req, .done resp⟩ : Event) ∈ es
  post : req.method = .post
  path : req.path = authInitPath
  good : 200 ≤ resp.status ∧ resp.status < 300
  body : resp.body = some b
  object : jsonParse (cstr b) = some root ∧ root.isObject = true
  token : root.getString (lit "token") = some token
  instanceid : root.getString (lit "instanceid") = some instanceid

/-- The device is personalised and the token that it handed out is `token`. -/
def Personalised (es : List Event) (token : Bytes) : Prop :=
  ∃ req resp b root instanceid, Committed es req resp b root token instanceid

/-- The session of the new user, whose one token is the device's. -/
def personalSession (cfg : Config) (passphrase token : Bytes) (exp : Int) : Auth where
  passphrase := some passphrase
  passphraseLen := passphrase.length
  retain := !cfg.noCredentialRetention
  username := none
  mobile := false
  cache := [⟨lit "system:config", token, exp⟩]

/-- No login exchange is started. -/
def NoLogin (es : List Event) : Prop := ∀ e ∈ es, e.op ≠ .mark .acquire

instance (es : List Event) : Decidable (NoLogin es) := inferInstanceAs (Decidable (∀ e ∈ es, _))

/-- The dispatch under the scope that carries the bearer and is answered with a 401. -/
def TurnedDown (scope token : Bytes) (e : Event) : Prop :=
  ∃ req resp, e = ⟨.send (some scope) req, .done resp⟩ ∧ resp.status = 401 ∧
    (lit "Authorization", lit "Bearer " ++ token) ∈ req.headers

/-- A login exchange is started only once the bearer has been turned down. -/
def Loyal (scope token : Bytes) (es : List Event) : Prop :=
  NoLogin es ∨ ∃ pre e post, es = pre ++ e :: post ∧ TurnedDown scope token e ∧ NoLogin pre

/-- So it is where the token is looked up before its expiry. -/
def FromCache (scope token : Bytes) (exp : Int) (es : List Event) : Prop :=
  ∀ n : Int, es.head? = some ⟨.authNow, n⟩ → n < exp → Loyal scope token es

theorem Committed.right {es es' : List Event} {req : Request} {resp : Response} {b : Bytes}
    {root : Json} {token instanceid : Bytes} (h : Committed es' req resp b root token instanceid) :
    Committed (es ++ es') req resp b root token instanceid :=
  { h with answered := List.mem_append.mpr (.inr h.answered) }

theorem Committed.left {es es' : List Event} {req : Request} {resp : Response} {b : Bytes}
    {root : Json} {token instanceid : Bytes} (h : Committed es req resp b root token instanceid) :
    Committed (es ++ es') req resp b root token instanceid :=
  { h with answered := List.mem_append.mpr (.inl h.answered) }

theorem Personalised.right {es es' : List Event} {token : Bytes} (h : Personalised es' token) :
    Personalised (es ++ es') token := by
  obtain ⟨req, resp, b, root, instanceid, hc⟩ := h
  exact ⟨req, resp, b, root, instanceid, hc.right⟩

theorem Personalised.left {es es' : List Event} {token : Bytes} (h : Personalised es token) :
    Personalised (es ++ es') token := by
  obtain ⟨req, resp, b, root, instanceid, hc⟩ := h
  exact ⟨req, resp, b, root, instanceid, hc.left⟩

/-- What leaves the session as it is. -/
def still : Contract Op Ans Ctx where
  rel s _ s' := s'.auth = s.auth
  refl _ := rfl
  trans h h' := h'.trans h

theorem still_authOnly : AuthOnly still where
  event _ _ := rfl
  still _ _ h _ _ := h

/-- All or nothing: a failure that leaves the session as it was, or a personalised device, and
then a success leaves the new user's session. -/
def AllOrNothing {α : Type} (cfg : Config) (p : InitParams) (auth : Option Auth) (es : List Event)
    (r : Except Rc α) (s' : Ctx) : Prop :=
  (s'.auth = auth ∧ ∀ a, r ≠ .ok a) ∨ ∃ passphrase token, p.passphrase = some passphrase ∧
    Personalised es token ∧ ∀ a, r = .ok a → ∃ exp, s'.auth = some (personalSession cfg passphrase token exp)

section
variable {cfg : Config} {α β : Type} {p : InitParams} {s : Ctx}

theorem AllOrNothing.right {auth : Option Auth} {es es' : List Event} {r : Except Rc α} {s' : Ctx}
    (h : AllOrNothing cfg p auth es' r s') : AllOrNothing cfg p auth (es ++ es') r s' := by
  rcases h with h | ⟨passphrase, token, hp, hc, hok⟩
  · exact .inl h
  · exact .inr ⟨passphrase, token, hp, hc.right, hok⟩

/-- A part that leaves the session alone may come first. -/
theorem wp_still_bind {x : Cmd β} {f : β → Cmd α} (hx : Keeps still x)
    (hf : ∀ b s', s'.auth = s.auth → wp (f b) (AllOrNothing cfg p s.auth) s') :
    wp (x >>= f) (AllOrNothing cfg p s.auth) s := by
  refine wp_bind_of (hx.run s) ?_ ?_
  · intro es b s' hs
    exact wp_mono (hf b s' hs) fun es' r s'' h => h.right
  · intro es e s' hs
    exact .inl ⟨hs, fun _ h => nomatch h⟩

/-- What fails may leave the session alone. -/
theorem wp_still_fails {x : Cmd α} {s₀ : Ctx} (hx : Keeps still x) (hy : Yields x fun _ => False)
    (hs : s.auth = s₀.auth) : wp x (AllOrNothing cfg p s₀.auth) s := by
  refine wp_mono (wp_and (hx.run s) (hy.run s)) ?_
  intro es r s' h
  exact .inl ⟨h.1.trans hs, fun a ha => h.2 a ha⟩

theorem wp_still_ctxFail {rc : Rc} {status : Int} {payload : Option Bytes} {fmt : List Piece} {s₀ : Ctx}
    (hs : s.auth = s₀.auth) : wp (ctxFail rc status payload fmt : Cmd α) (AllOrNothing cfg p s₀.auth) s :=
  wp_still_fails (still_authOnly.timed.ctxFail ..) (yields_ctxFail ..) hs

theorem wp_still_initExplain {rc : Rc} {leg : String} {s₀ : Ctx} (hs : s.auth = s₀.auth) :
    wp (initExplain rc leg : Cmd α) (AllOrNothing cfg p s₀.auth) s := by
  refine wp_still_fails (still_authOnly.timed.initExplain ..) (.bind fun _ => ?_) hs
  dsimp only
  split
  · exact .throw _ _
  · exact yields_ctxFail ..

end

/-- A bearer that is stored in an empty cache is the only one there. -/
theorem wp_authCacheSeed_only {scope token : Bytes} {s : Ctx} {a : Auth} (ha : s.auth = some a)
    (hc : a.cache = []) : wp (authCacheSeed scope token) (fun _ r s' => r = .ok () →
      ∃ exp, s'.auth = some { a with cache := [⟨scope, token, exp⟩] }) s := by
  have hput : ∀ exp, (s.put scope token exp).auth = some { a with cache := [⟨scope, token, exp⟩] } := by
    intro exp
    simp [Ctx.put, Ctx.setAuth, ha, Auth.put, Auth.cacheFind, Auth.cacheInsert, hc]
  have hstore : ∀ e : Int, wp (do
      let put ← cachePut scope token (e - tokenSkew)
      if put then pure () else outOfMemory : Cmd Unit)
      (fun _ r s' => r = .ok () → ∃ exp, s'.auth = some { a with cache := [⟨scope, token, exp⟩] }) s := by
    intro e
    rw [wp_bind]
    refine wp_cachePut (fun _ _ => wp_ctxFail_of fun _ _ _ _ _ => by simp) fun _ _ => ?_
    exact wp_pure.mpr fun _ => ⟨_, hput _⟩
  unfold authCacheSeed
  rw [wp_bind]
  refine wp_needAuth ?_ (fun _ hn => ?_) (fun _ _ hn => ?_)
  · intro b hb
    dsimp only
    rw [wp_bind]
    refine wp_peekClaim_of fun es v _ _ => ?_
    cases v with
    | some e => exact hstore e
    | none =>
      dsimp only
      unfold expiryOr
      rw [Cmd.bind_assoc, wp_bind, wp_authNow]
      intro now
      exact hstore (now + tokenLifetime)
  · rw [ha] at hn
    cases hn
  · rw [ha] at hn
    cases hn

/-- The new user's session is opened in two steps. -/
theorem lands_initSession (cfg : Config) (q : InitStrings) (token : Bytes) :
    Lands (initSession cfg q token) fun _ s => ∃ exp, s.auth = some (personalSession cfg q.passphrase token exp) := by
  have hlogin : Lands (loginMarked cfg .initLogin q.passphrase) fun _ s =>
      s.auth = some { personalSession cfg q.passphrase token 0 with cache := [] } := by
    refine .bind fun _ => .bind fun _ => .bind fun a => ⟨fun s => ?_⟩
    rw [wp_bind, wp_modifyCtx, wp_mark]
    intro u _
    rfl
  refine .bind_of hlogin fun u s hs => wp_mono (wp_authCacheSeed_only hs rfl) ?_
  intro es r s' h u hr
  exact h hr

section
variable {cfg : Config} {p : InitParams} {q : InitStrings}

/-- What the commit is answered with, where it is answered. -/
theorem AskedJson.committed {cfg : Config} {body : Option Bytes} {s s' : Ctx} {es : List Event} {root : Json}
    {token instanceid : Bytes} (h : AskedJson cfg .post authInitPath body s es (.ok root) s')
    (ht : root.getString (lit "token") = some token) (hi : root.getString (lit "instanceid") = some instanceid) :
    Personalised es token := by
  obtain ⟨sent, rest, last, rfl, -, htried, hv⟩ := h.run
  cases hv with
  | good resp b _ _ hf hb hj ho _ =>
    obtain ⟨fresh, hlatest⟩ := htried.latest
    obtain ⟨e, hmem, hloud⟩ := latest_mem hlatest
    have he : e = ⟨.send none (buildRequest cfg .post authInitPath body none .default fresh), .done resp⟩ := by
      rcases Event.loud_self e with hn | hs
      · rw [hn] at hloud
        exact nomatch hloud
      · rw [hs] at hloud
        exact Option.some.inj hloud
    have hgood : 200 ≤ resp.status ∧ resp.status < 300 := by
      by_contra hbad
      unfold Response.fault at hf
      rw [if_pos (by omega)] at hf
      exact nomatch hf
    exact ⟨_, resp, b, root, instanceid, List.mem_append.mpr (.inl (he ▸ hmem)), rfl, rfl, hgood, hb, ⟨hj, ho⟩, ht, hi⟩

theorem wp_initCommit (hp : p.passphrase = some q.passphrase) (jwt : Bytes) (out : Bool) {s s₀ : Ctx}
    (hs : s.auth = s₀.auth) : wp (initCommit cfg q jwt out) (AllOrNothing cfg p s₀.auth) s := by
  unfold initCommit
  rw [← hs]
  refine wp_still_bind still_authOnly.timed.need fun _ s₁ hs₁ => ?_
  rw [wp_bind, wp_attempt]
  refine wp_mono (wp_requestPlainJson cfg .post authInitPath (some (initBody jwt)) s₁) ?_
  intro es r s₂ h
  have hs₂ : s₂.auth = s.auth := h.frame.auth.trans hs₁
  cases r with
  | error rc =>
    have hstill : wp (initExplain rc "commit" : Cmd (Option InitInfo)) (AllOrNothing cfg p s.auth) s₂ :=
      wp_still_initExplain hs₂
    exact wp_mono hstill fun _ _ _ h => h.right
  | ok root =>
    dsimp only
    split
    · rename_i token instanceid ht hi
      have hc := h.committed ht hi
      have hopen : Lands (initSession cfg q token >>= fun _ => initOut out instanceid root) fun _ s =>
          ∃ exp, s.auth = some (personalSession cfg q.passphrase token exp) := by
        refine .bind_of (lands_initSession cfg q token) fun _ s hs => ?_
        refine wp_mono ((still_authOnly.timed.initOut out instanceid root).run s) ?_
        intro es r s' hsame v _
        obtain ⟨exp, hexp⟩ := hs
        exact ⟨exp, hsame.trans hexp⟩
      refine wp_mono (hopen.run s₂) ?_
      intro es' r' s' hok
      exact .inr ⟨q.passphrase, token, hp, hc.left, fun a ha => hok a ha⟩
    · refine wp_mono (wp_still_ctxFail hs₂ : wp _ (AllOrNothing cfg p s.auth) s₂) ?_
      intro es' r' s' h
      exact h.right

theorem wp_initAnswer (hp : p.passphrase = some q.passphrase) (out : Bool) (challenge : Json) {s s₀ : Ctx}
    (hs : s.auth = s₀.auth) : wp (initAnswer cfg p q out challenge) (AllOrNothing cfg p s₀.auth) s := by
  unfold initAnswer
  split
  · exact wp_still_ctxFail hs
  · split
    · exact wp_still_ctxFail hs
    · rw [← hs]
      refine wp_still_bind (still_authOnly.timed.initJwt ..).attempt fun jwt s₁ hs₁ => ?_
      cases jwt with
      | error rc => exact wp_still_ctxFail hs₁
      | ok jwt => exact wp_initCommit hp jwt out hs₁

theorem wp_deviceInit (cfg : Config) (p : InitParams) (out : Bool) (s : Ctx) :
    wp (deviceInit cfg p out) (AllOrNothing cfg p s.auth) s := by
  unfold deviceInit
  refine wp_still_bind still_authOnly.timed.clearError fun _ s₁ hs₁ => ?_
  split
  · exact wp_still_ctxFail hs₁
  · rename_i q hq
    have hp : p.passphrase = some q.passphrase := by
      simp only [initStrings, Option.bind_eq_bind, Option.bind_eq_some_iff] at hq
      obtain ⟨passphrase, hp, _, _, _, _, _, _, _, _, _, _, heq⟩ := hq
      rw [hp, ← Option.some.inj heq]
    rw [wp_ite]
    split
    · exact wp_still_ctxFail hs₁
    · rw [← hs₁]
      refine wp_still_bind (still_authOnly.timed.ask rfl) fun init s₂ hs₂ => ?_
      cases init with
      | error rc => exact wp_still_ctxFail hs₂
      | ok u =>
        dsimp only
        rw [← hs₂]
        refine wp_still_bind still_authOnly.requestPlainJson.attempt fun challenge s₃ hs₃ => ?_
        cases challenge with
        | error rc => exact wp_still_initExplain hs₃
        | ok challenge => exact wp_initAnswer hp out challenge hs₃

end

theorem NoLogin.nil : NoLogin [] := fun _ he => absurd he List.not_mem_nil

theorem NoLogin.append {es es' : List Event} (h : NoLogin es) (h' : NoLogin es') : NoLogin (es ++ es') := by
  intro e he
  rcases List.mem_append.mp he with he | he
  · exact h e he
  · exact h' e he

theorem NoLogin.single {e : Event} (h : e.op ≠ .mark .acquire) : NoLogin [e] := by
  intro d hd
  rw [List.mem_singleton.mp hd]
  exact h

theorem Calm.noLogin {es : List Event} (h : Calm es) : NoLogin es := by
  intro e he hop
  have hq := h e he
  rw [hop] at hq
  exact nomatch hq

theorem CheckinEvents.noLogin {why : CheckinReason} {es : List Event} (h : CheckinEvents why es) :
    NoLogin es := by
  obtain ⟨inner, rfl, hlegs⟩ := h
  have hinner : NoLogin inner := by
    intro e he hop
    obtain ⟨op, ans⟩ := e
    obtain rfl : op = .mark .acquire := hop
    exact nomatch hlegs _ he
  exact (NoLogin.single (by simp)).append (hinner.append (.single (by simp)))

/-- The dispatches of a request start no login exchange, and an answer to go on with is the last of them. -/
theorem Tried.ends {cfg : Config} {s : Ctx} {scope : Option Bytes} {req : Bool → Request} {sent : List Event}
    {last : Option Answer} (h : Tried cfg s scope req sent last) : NoLogin sent ∧
      ∀ a, last = some a → ∃ pre fresh, sent = pre ++ [⟨.send scope (req fresh), a⟩] ∧ NoLogin pre := by
  have hpause : NoLogin (pause cfg) := (Calm.pause cfg).noLogin
  have hsend : ∀ fresh (a : Answer), NoLogin [⟨.send scope (req fresh), a⟩] := fun fresh a =>
    .single (fun h => nomatch h)
  cases h with
  | unsent h => exact ⟨NoLogin.nil, fun _ hl => nomatch hl⟩
  | once a h =>
    refine ⟨hpause.append (hsend false a), fun b hb => ?_⟩
    obtain rfl := Option.some.inj hb
    exact ⟨pause cfg, false, rfl, hpause⟩
  | stuck why detail check h hc =>
    exact ⟨(hpause.append (hsend false (.failed why true detail))).append hc.noLogin, fun _ hl => nomatch hl⟩
  | resent why detail check a h hc last hl =>
    have hfirst := ((hpause.append (hsend false (.failed why true detail))).append hc.noLogin).append hpause
    refine ⟨?_, fun b hb => ?_⟩
    · rw [← List.append_assoc]
      exact hfirst.append (hsend true a)
    · rcases hl with hl | hl
      · obtain rfl : a = b := Option.some.inj (hl.symm.trans hb)
        exact ⟨_, true, (List.append_assoc ..).symm, hfirst⟩
      · rw [hl.1] at hb
        exact nomatch hb

theorem Loyal.right {scope token : Bytes} {es es' : List Event} (h : Loyal scope token es') (hn : NoLogin es) :
    Loyal scope token (es ++ es') := by
  rcases h with h | ⟨pre, e, post, rfl, hd, hpre⟩
  · exact .inl (hn.append h)
  · exact .inr ⟨es ++ pre, e, post, (List.append_assoc ..).symm, hd, hn.append hpre⟩

section
variable {cfg : Config} {s : Ctx}

/-- The bearer that goes out is the one of the cache; what is answered decides on more. -/
theorem wp_exchange_cached (method : Method) (path : Bytes) (body : Option Bytes) (scope token : Bytes) :
    wp (exchangeWith cfg (ensureToken cfg) (recoveryCheckin cfg) method path body (some scope) .default
      (some (lit "Bearer " ++ token))) (fun es _ _ => Loyal scope token es) s := by
  unfold exchangeWith
  rw [← Cmd.bind_assoc]
  refine wp_bind_of (wp_tried (some scope) method path body (some (lit "Bearer " ++ token))) ?_ ?_
  · intro sent a s₁ h
    obtain ⟨-, last, htried, hlast, -⟩ := h
    obtain ⟨hsent, hends⟩ := htried.ends
    cases a with
    | failed why expired detail =>
      show wp (sendFailed path why expired detail >>= _) _ s₁
      rw [sendFailed_bind]
      exact wp_sendFailed_of fun _ _ _ => .inl (hsent.append .nil)
    | done r =>
      show wp (retryAuth _ _ path (some scope) r >>= _) _ s₁
      by_cases hr : r.status = 401
      · obtain ⟨pre, fresh, rfl, hpre⟩ := hends _ hlast
        intro es v s₂ _
        refine .inr ⟨pre, _, es, by rw [List.append_assoc]; rfl, ⟨_, r, rfl, hr, ?_⟩, hpre⟩
        simp [buildRequest, requestHeaders]
      · unfold retryAuth
        dsimp only
        rw [if_pos hr]
        refine wp_judge_of (fun _ _ _ => .inl ?_) fun _ es _ _ hc _ => .inl (hsent.append hc.noLogin)
        exact hsent.append .nil
  · intro sent rc s₁ h
    obtain ⟨-, last, htried, -⟩ := h
    exact .inl htried.ends.1

/-- A request under a scope whose token is not expired yet. -/
theorem wp_requestRaw_cached (method : Method) (path : Bytes) (body : Option Bytes) {scope : Bytes}
    {e : TokenEntry} (he : s.auth.bind (·.cacheFind scope) = some e) :
    wp (requestRaw cfg method path body (some scope) .default)
      (fun es _ _ => FromCache scope e.token e.exp es) s := by
  unfold requestRaw requestRawWith
  rw [wp_ite]
  split
  · rw [wp_ctxFail]
    exact fun _ _ _ _ => .inl .nil
  · unfold acquireBearer ensureToken
    simp only [Cmd.bind_assoc]
    rw [wp_bind, wp_authNow]
    intro now
    dsimp only
    rw [wp_bind, wp_getCtx]
    dsimp only
    by_cases hlt : now < e.exp
    · have hfresh : s.freshEntry scope now = some e := by
        unfold Ctx.freshEntry
        rw [he]
        simp [hlt]
      rw [hfresh]
      simp only [Cmd.bind_assoc, Cmd.pure_bind]
      rw [wp_bind, wp_mark]
      dsimp only
      unfold makeBearer
      simp only [Cmd.bind_assoc, Cmd.pure_bind]
      have hstart : NoLogin [⟨.authNow, now⟩, ⟨.mark (.granted scope e.token (some (e.exp, now))), ()⟩] := by
        simp [NoLogin]
      have hrest : wp (need >>= fun _ => exchangeWith cfg (ensureToken cfg) (recoveryCheckin cfg) method path body
          (some scope) .default (some (lit "Bearer " ++ e.token))) (fun es _ _ => Loyal scope e.token es) s := by
        refine wp_bind_of (P := fun es _ _ => NoLogin es)
          (wp_need_of (fun es hc => hc.noLogin) fun es d hc _ => hc.noLogin) ?_ fun es _ _ hn => .inl hn
        intro es u s₁ hn
        exact wp_mono (wp_exchange_cached method path body scope e.token) fun es' _ _ h => h.right hn
      exact wp_mono hrest fun es _ _ h _ _ _ => h.right hstart
    · intro es r s' _ n hn hlt'
      obtain rfl : now = n := by simpa using hn
      exact absurd hlt' hlt

end

theorem find_personalSession (cfg : Config) (passphrase token : Bytes) (exp : Int) :
    (personalSession cfg passphrase token exp).cacheFind systemConfigScope =
      some ⟨systemConfigScope, token, exp⟩ := by
  simp [personalSession, Auth.cacheFind, systemConfigScope]

/-- An initialisation replaces the session as a whole or not at all, and the first request of the
new user's session goes out with the device's token. -/
theorem device_init_all_or_nothing (cfg : Config) (p : InitParams) (out : Bool) {s s' : Ctx}
    {es : List Event} {r : Except Rc (Option InitInfo)} (h : Runs (deviceInit cfg p out) s es r s') :
    ((∀ token, ¬Personalised es token) → s'.auth = s.auth) ∧
    ∀ info, r = .ok info → ∃ passphrase token exp, p.passphrase = some passphrase ∧ Personalised es token ∧
      s'.auth = some (personalSession cfg passphrase token exp) ∧
      ∀ method path body, wp (requestRaw cfg method path body (some systemConfigScope) .default)
        (fun es' _ _ => FromCache systemConfigScope token exp es') s' := by
  have hall := wp_deviceInit cfg p out s es r s' h
  constructor
  · intro hn
    rcases hall with hs | ⟨passphrase, token, -, hc, -⟩
    · exact hs.1
    · exact absurd hc (hn token)
  · intro info hok
    rcases hall with hs | ⟨passphrase, token, hp, hc, hsession⟩
    · exact absurd hok (hs.2 info)
    · obtain ⟨exp, hauth⟩ := hsession info hok
      refine ⟨passphrase, token, exp, hp, hc, hauth, fun method path body => ?_⟩
      have hfind : s'.auth.bind (·.cacheFind systemConfigScope) = some ⟨systemConfigScope, token, exp⟩ := by
        rw [hauth]
        exact find_personalSession ..
      exact wp_requestRaw_cached method path body hfind

def sampleInit : InitParams where
  passphrase := some (lit "pw")
  masterSecret := some (lit "ms")
  user := some (lit "u")
  email := some (lit "u@e")
  hostname := some (lit "h")
  ip := some (lit "10.0.0.2")
  storageMode := 1
  storageDisk0size := 1
  dnsd := false
  noTrustedTs := false
  noTrustedBackend := false
  noAllowKeysearch := false
  origin := none
  ctxId := 0
  genCsr := false

/-- A device that takes the initialisation. -/
def initAnswers : List Answer :=
  [.object [("eid", .str (lit "e")), ("spk", .str (lit "AAAAAAAAAAAAAAAAAAAAAAAAAAAAAAAAAAAAAAAAAAA=")),
      ("jti", .str (lit "j")), ("exp", .int 65)],
    .object [("token", .str (lit "t")), ("instanceid", .str (lit "i"))]]

/-- A context that has just initialised a device. -/
def personalCtx : Ctx := scriptState (deviceInit .standard sampleInit false) .initial 5 initAnswers

theorem sampleInit_ok : scriptResult (deviceInit .standard sampleInit false) .initial 5 initAnswers = .ok none := by
  decide +kernel

theorem personalCtx_auth : personalCtx.auth = some (personalSession .standard (lit "pw") (lit "t") 3545) := by
  decide +kernel

theorem sample_session_from_cache : ∃ exp, personalCtx.auth = some (personalSession .standard (lit "pw") (lit "t") exp) ∧
    ∀ method path body, wp (requestRaw .standard method path body (some systemConfigScope) .default)
      (fun es _ _ => FromCache systemConfigScope (lit "t") exp es) personalCtx := by
  have hrun := script_runs (deviceInit .standard sampleInit false) .initial 5 initAnswers
  rw [sampleInit_ok] at hrun
  obtain ⟨passphrase, token, exp, hp, -, hauth, hcache⟩ :=
    (device_init_all_or_nothing .standard sampleInit false hrun).2 none rfl
  have hsame := personalCtx_auth.symm.trans hauth
  simp only [personalSession, Option.some.injEq, Auth.mk.injEq, List.cons.injEq, TokenEntry.mk.injEq] at hsame
  obtain ⟨rfl, -, -, -, -, ⟨-, rfl, rfl⟩, -⟩ := hsame
  exact ⟨_, hauth, hcache⟩

/-- A device that turns its own token down makes the next binding log in. -/
theorem turned_down_token_logs_in :
    scriptResult (deviceInit .standard sampleInit false) .initial 5 initAnswers = .ok none ∧
      personalCtx.auth = some (personalSession .standard (lit "pw") (lit "t") 3545) ∧
      ¬NoLogin (scriptEvents (Api.systemConfig : Api .standard ConfigInfo).cmd personalCtx 5 [.status 401]) :=
  ⟨sampleInit_ok, personalCtx_auth, by decide +kernel⟩

end EncedoHem
