import EncedoHem.Api
import EncedoHem.Proofs.Engine
import EncedoHem.Proofs.Exchange
import EncedoHem.Scripted

namespace EncedoHem
open Text Dialogue

/-- A session state as the rest of the code takes it to be. -/
structure Auth.Sound (a : Auth) : Prop where
  unique : (a.cache.map (·.scope)).Nodup
  mobile : a.mobile = true → a.passphrase = none
  length : a.passphraseLen = (a.passphrase.map List.length).getD 0

def Ctx.Sound (s : Ctx) : Prop := ∀ a, s.auth = some a → a.Sound

namespace Auth.Sound
variable {a : Auth}

theorem fresh : Auth.fresh.Sound := ⟨List.nodup_nil, (fun h => nomatch h), rfl⟩

theorem cacheReplace (h : a.Sound) (scope token : Bytes) (exp : Int) :
    (a.cacheReplace scope token exp).Sound := by
  refine ⟨?_, h.mobile, h.length⟩
  have hscopes : (a.cacheReplace scope token exp).cache.map (·.scope) = a.cache.map (·.scope) := by
    show (a.cache.map _).map _ = _
    rw [List.map_map]
    refine List.map_congr_left fun e _ => ?_
    show (if e.scope = scope then (⟨scope, token, exp⟩ : TokenEntry) else e).scope = e.scope
    split
    · rename_i he
      exact he.symm
    · rfl
  rw [hscopes]
  exact h.unique

theorem cacheInsert (h : a.Sound) {scope : Bytes} (token : Bytes) (exp : Int)
    (hn : a.cacheFind scope = none) : (a.cacheInsert scope token exp).Sound := by
  refine ⟨List.nodup_cons.mpr ⟨?_, h.unique⟩, h.mobile, h.length⟩
  intro hm
  obtain ⟨e, he, hs⟩ := List.mem_map.mp hm
  have := List.find?_eq_none.mp hn e he
  simp [hs] at this

theorem cacheClear (h : a.Sound) : a.cacheClear.Sound := ⟨List.nodup_nil, h.mobile, h.length⟩

theorem cacheRemove (h : a.Sound) (scope : Bytes) : (a.cacheRemove scope).Sound :=
  ⟨h.unique.sublist (List.eraseP_sublist.map _), h.mobile, h.length⟩

theorem scrubPassphrase (h : a.Sound) : a.scrubPassphrase.Sound := ⟨h.unique, fun _ => rfl, rfl⟩

theorem afterUse (h : a.Sound) : a.afterUse.Sound := by
  unfold Auth.afterUse
  split
  · exact h
  · exact h.scrubPassphrase

/-- With one entry a scope, taking its first entry out leaves exactly the others. -/
theorem cacheRemove_eq (h : a.Sound) (scope : Bytes) :
    a.cacheRemove scope = { a with cache := a.cache.filter (·.scope ≠ scope) } := by
  have hlist : ∀ es : List TokenEntry, (es.map (·.scope)).Nodup →
      es.eraseP (·.scope = scope) = es.filter (·.scope ≠ scope) := by
    intro es
    induction es with
    | nil => intro _; rfl
    | cons e es ih =>
      intro hn
      obtain ⟨hnot, hrest⟩ := List.nodup_cons.mp hn
      by_cases he : e.scope = scope
      · have hall : ∀ d ∈ es, d.scope ≠ scope := by
          intro d hd hs
          exact hnot (List.mem_map.mpr ⟨d, hd, hs.trans he.symm⟩)
        rw [List.eraseP_cons_of_pos (by simpa using he), List.filter_cons_of_neg (by simpa using he)]
        exact (List.filter_eq_self.mpr fun d hd => by simpa using hall d hd).symm
      · rw [List.eraseP_cons_of_neg (by simpa using he), List.filter_cons_of_pos (by simpa using he),
          ih hrest]
  unfold Auth.cacheRemove
  rw [hlist a.cache h.unique]

end Auth.Sound

/-- The cache with an entry for the scope, in the place of the old one or as a new one. -/
def Auth.put (a : Auth) (scope token : Bytes) (exp : Int) : Auth :=
  match a.cacheFind scope with
  | some _ => a.cacheReplace scope token exp
  | none => a.cacheInsert scope token exp

theorem Auth.Sound.put {a : Auth} (h : a.Sound) (scope token : Bytes) (exp : Int) :
    (a.put scope token exp).Sound := by
  unfold Auth.put
  split
  · exact h.cacheReplace ..
  · exact h.cacheInsert _ _ ‹_›

def Ctx.put (s : Ctx) (scope token : Bytes) (exp : Int) : Ctx :=
  s.setAuth (s.auth.map (·.put scope token exp))

theorem calm_alloc (ok : Bool) : Calm [⟨.alloc, ok⟩] :=
  fun e he => by rw [List.mem_singleton.mp he]; rfl

section
variable {cfg : Config} {s : Ctx}

/-- Storing a bearer either does so or leaves everything as it was. -/
theorem wp_cachePut {scope token : Bytes} {exp : Int} {Q : List Event → Except Rc Bool → Ctx → Prop}
    (hfail : ∀ es, Calm es → Q es (.ok false) s)
    (hput : ∀ es, Calm es → Q es (.ok true) (s.put scope token exp)) :
    wp (cachePut scope token exp) Q s := by
  have hset : ∀ f : Auth → Auth, (∀ a, s.auth = some a → a.put scope token exp = f a) →
      s.setAuth (s.auth.map f) = s.put scope token exp := by
    intro f hf
    unfold Ctx.put
    cases ha : s.auth with
    | none => rfl
    | some a => rw [Option.map_some, Option.map_some, hf a ha]
  unfold cachePut modifyAuth
  rw [wp_bind, wp_getCtx]
  dsimp only
  rw [wp_bind, wp_alloc]
  intro copied
  dsimp only
  rw [wp_ite]
  split
  · exact wp_pure.mpr (hfail _ (calm_alloc copied))
  · cases hfind : s.auth.bind (·.cacheFind scope) with
    | some e =>
      simp only [wp_bind, wp_modifyCtx, wp_pure]
      have hrep : s.setAuth (s.auth.map (·.cacheReplace scope token exp)) = s.put scope token exp := by
        refine hset _ fun a ha => ?_
        rw [ha, Option.bind_some] at hfind
        unfold Auth.put
        rw [hfind]
      rw [hrep]
      exact hput _ ((Calm.nil).append (calm_alloc copied))
    | none =>
      have hins : s.setAuth (s.auth.map (·.cacheInsert scope token exp)) = s.put scope token exp := by
        refine hset _ fun a ha => ?_
        rw [ha, Option.bind_some] at hfind
        unfold Auth.put
        rw [hfind]
      dsimp only
      rw [wp_bind, wp_alloc]
      intro entry
      dsimp only
      rw [wp_ite]
      have hce := (calm_alloc copied).append (calm_alloc entry)
      split
      · exact wp_pure.mpr (hfail _ (by simpa using hce))
      · rw [wp_bind, wp_alloc]
        intro named
        dsimp only
        rw [wp_ite]
        have hcen := hce.append (calm_alloc named)
        split
        · exact wp_pure.mpr (hfail _ (by simpa using hcen))
        · simp only [wp_bind, wp_modifyCtx, wp_pure]
          rw [hins]
          exact hput _ (by simpa using hcen)

/-- The session state is there already, or made empty. -/
theorem wp_needAuth {Q : List Event → Except Rc Auth → Ctx → Prop}
    (hold : ∀ a, s.auth = some a → Q [] (.ok a) s)
    (hnew : ∀ es, s.auth = none → Calm es → Q es (.ok .fresh) (s.setAuth (some .fresh)))
    (herr : ∀ es d, s.auth = none → Calm es → Q es (.error .nomem) (s.setError d)) :
    wp needAuth Q s := by
  unfold needAuth
  rw [wp_bind, wp_getCtx]
  dsimp only
  cases ha : s.auth with
  | some a => exact wp_pure.mpr (hold a ha)
  | none =>
    dsimp only
    rw [wp_bind]
    refine wp_need_of (fun es hc => ?_) fun es d hc _ => herr es d ha hc
    simp only [wp_bind, wp_modifyCtx, wp_pure, List.nil_append, List.append_nil]
    exact hnew es ha hc

theorem wp_expiryOr (v : Option Int) (s : Ctx) : wp (expiryOr v) (fun _ _ s' => s' = s) s := by
  cases v with
  | some e => exact wp_pure.mpr rfl
  | none =>
    unfold expiryOr
    rw [wp_bind, wp_authNow]
    exact fun _ => wp_pure.mpr rfl

end

/-- The calls that a client makes on one of its handles. -/
inductive OnHandle (cfg : Config) (i : Nat) : (α : Type) → Cmd α → Prop where
  | poll : OnHandle cfg i ConfirmStatus (extConfirmPoll cfg i)
  | wait (timeoutMs : Int) : OnHandle cfg i Unit (extConfirmWait cfg i timeoutMs)
  | cancel : OnHandle cfg i Unit (extConfirmCancel i)

/-- What a contract about the session state has to allow for the calls that a client
makes to change it. -/
structure Sessional (cfg : Config) (K : Contract Op Ans Ctx) : Prop
    extends AuthOnly K, Engine cfg (fun _ => True) K where
  login : ∀ m passphrase, Keeps K (loginMarked cfg m passphrase)
  loginMobile : Keeps K loginMobile
  logout : Keeps K logout
  invalidate : ∀ scope, Keeps K (authInvalidate scope)
  invalidateAll : Keeps K authInvalidateAll

namespace Sessional
variable {cfg : Config} {K : Contract Op Ans Ctx} (h : Sessional cfg K) {α : Type}
include h

theorem requestRaw {method : Method} {path : Bytes} {body scope : Option Bytes} {ov : TlsOverride} :
    Keeps K (requestRaw cfg method path body scope ov) :=
  h.requestRawWith (fun _ => h.still _ _ rfl rfl id) (fun _ => h.checkin _) (fun sc _ => h.invalidate sc)
    (fun _ _ => h.toEngine.ensureToken trivial) fun s _ _ _ _ => h.event s _

theorem deviceInit (p : InitParams) (out : Bool) : Keeps K (deviceInit cfg p out) :=
  h.toTimed.deviceInit (P := fun _ => True) trivial (fun _ _ _ _ => h.toAuthOnly.requestPlainJson)
    fun _ _ => .bind (h.login _ _) fun _ => h.toEngine.authCacheSeed trivial _

omit h in
theorem takeHandle (i : Nat) : Keeps K (takeHandle i) := by
  refine .bind .get fun s => ?_
  split
  · exact .throw _
  · exact .pure _

/-- Every primitive command of the interface keeps what these do and what the writes to the
handles keep that it makes. -/
theorem prim {x : Cmd α} (hx : Prim cfg α x)
    (hset : ∀ i c, OnHandle cfg i α x → Keeps K (modifyCtx (·.setHandle i c)))
    (hadd : ∀ c, Keeps K (modifyCtx (·.addHandle c))) : Keeps K x := by
  cases hx with
  | part _ _ hp => exact hp.keeps h.toMachinery
  | device method path body scope => exact h.requestRaw
  | cloud method url body => exact h.requestRaw
  | checkin => exact h.toAuthOnly.checkinRunInfo _
  | login passphrase => exact h.login _ _
  | loginMobile => exact h.loginMobile
  | logout => exact h.logout
  | authInvalidateAll => exact h.invalidateAll
  | deviceInit p out => exact h.deviceInit p out
  | confirmBegin url scope ctxStr note =>
    exact .bind (h.toEngine.confirmBegin ..) fun c => .bind .get fun _ =>
      .bind (hadd c) fun _ => .pure _
  | confirmPoll i =>
    exact .bind (takeHandle i) fun _ => .bind (h.toEngine.confirmPoll trivial) fun _ =>
      .bind (hset i _ .poll) fun _ => Neutral.liftRc _
  | confirmWait i timeoutMs =>
    exact .bind (takeHandle i) fun _ => .bind (h.toEngine.confirmWait trivial _) fun _ =>
      .bind (hset i _ (.wait timeoutMs)) fun _ => Neutral.liftRc _
  | confirmCancel i => exact hset i _ .cancel

end Sessional

/-- What a client and the bindings do to a session: any call of the interface, and the
engine's own entry points for one scope. -/
inductive SessionOp (cfg : Config) : (α : Type) → Cmd α → Prop where
  | call (α : Type) (x : Cmd α) (h : Prim cfg α x) : SessionOp cfg α x
  | ensureToken (scope : Bytes) : SessionOp cfg Bytes (ensureToken cfg scope)
  | cacheSeed (scope token : Bytes) : SessionOp cfg Unit (authCacheSeed scope token)
  | invalidate (scope : Bytes) : SessionOp cfg Unit (authInvalidate scope)

theorem Sessional.op {cfg : Config} {K : Contract Op Ans Ctx} (h : Sessional cfg K) {α : Type}
    {x : Cmd α} (hx : SessionOp cfg α x) (hset : ∀ i c, Keeps K (modifyCtx (·.setHandle i c)))
    (hadd : ∀ c, Keeps K (modifyCtx (·.addHandle c))) : Keeps K x := by
  cases hx with
  | call _ _ hp => exact h.prim hp (fun i c _ => hset i c) hadd
  | ensureToken scope => exact h.toEngine.ensureToken trivial
  | cacheSeed scope token => exact h.toEngine.authCacheSeed trivial token
  | invalidate scope => exact h.invalidate scope

/-- Sound session states stay sound. -/
def soundness : Contract Op Ans Ctx where
  rel s _ s' := s.Sound → s'.Sound
  refl _ h := h
  trans h h' := h' ∘ h

namespace Sound
variable {α : Type} {cfg : Config}

theorem authOnly : AuthOnly soundness where
  event _ _ h := h
  still _ _ he _ _ h a ha := h a (he ▸ ha)

theorem modifyAuth {f : Auth → Auth} (hf : ∀ a, a.Sound → (f a).Sound) :
    Keeps soundness (modifyAuth f) := by
  refine .modify fun s h a ha => ?_
  obtain ⟨b, hb, rfl⟩ := Option.map_eq_some_iff.mp ha
  exact hf b (h b hb)

theorem put (scope token : Bytes) (exp : Int) : Keeps soundness (cachePut scope token exp) := by
  refine ⟨fun s => wp_cachePut (fun _ _ h => h) fun _ _ h a ha => ?_⟩
  obtain ⟨b, hb, rfl⟩ := Option.map_eq_some_iff.mp ha
  exact (h b hb).put ..

theorem needAuth : Keeps soundness needAuth := by
  refine ⟨fun s => wp_needAuth (fun _ _ h => h) (fun _ _ _ _ a ha => ?_) fun _ _ _ _ h => h⟩
  exact Option.some.inj ha ▸ Auth.Sound.fresh

theorem engine : Engine cfg (fun _ => True) soundness :=
  authOnly.engine (fun _ => modifyAuth fun _ h => ⟨h.unique, h.mobile, h.length⟩)
    (fun _ _ _ _ => put ..) (fun _ _ => modifyAuth fun _ h => h.afterUse) fun _ _ => needAuth

theorem setSession {f : Auth → Auth} (m : Mark) (hf : ∀ a, (f a).Sound) :
    Keeps soundness (EncedoHem.needAuth >>= fun a =>
      modifyCtx (fun s => s.setAuth (some (f a))) >>= fun _ => mark m) := by
  refine .bind needAuth fun a => .bind (.modify fun s _ b hb => ?_) fun _ => authOnly.mark m
  exact Option.some.inj hb ▸ hf a

theorem sessional : Sessional cfg soundness where
  toAuthOnly := authOnly
  toEngine := engine
  login m _ :=
    .bind authOnly.timed.clearError fun _ => .bind authOnly.timed.need fun _ =>
      setSession m fun _ => ⟨List.nodup_nil, (fun h => nomatch h), rfl⟩
  loginMobile := .bind authOnly.timed.clearError fun _ =>
    setSession .reset fun _ => ⟨List.nodup_nil, fun _ => rfl, rfl⟩
  logout := .bind authOnly.timed.clearError fun _ =>
    .bind (.modify fun _ _ _ ha => nomatch ha) fun _ => authOnly.mark _
  invalidate scope := modifyAuth fun _ h => h.cacheRemove scope
  invalidateAll := .bind (modifyAuth fun _ h => h.cacheClear) fun _ => authOnly.mark _

end Sound

/-- After any sequence of calls on a new context the session state is sound; taking a
scope's bearer out leaves exactly the others, and a logout leaves none. -/
theorem session_stays_sound (cfg : Config) {α : Type} (x : Program (SessionOp cfg) α) (s : Ctx)
    (es : List Event) (r : Except Rc α) (h : Runs x.cmd Ctx.initial es r s) :
    s.Sound ∧
    (∀ scope es₁ r₁ s₁, Runs (authInvalidate scope) s es₁ r₁ s₁ →
      s₁ = s.setAuth (s.auth.map fun a => { a with cache := a.cache.filter (·.scope ≠ scope) })) ∧
    ∀ es₁ r₁ s₁, Runs logout s es₁ r₁ s₁ → s₁.auth = none := by
  have hinit : Ctx.initial.Sound := fun _ ha => nomatch ha
  have hs : s.Sound := (x.keeps fun _ _ hx => Sound.sessional.op hx
    (fun _ _ => .modify fun _ => id) fun _ => .modify fun _ => id).run _ es r s h hinit
  refine ⟨hs, ?_, ?_⟩
  · intro scope
    refine wp_modifyCtx.mpr ?_
    show s.setAuth (s.auth.map _) = s.setAuth (s.auth.map _)
    cases ha : s.auth with
    | none => rfl
    | some a => rw [Option.map_some, Option.map_some, (hs a ha).cacheRemove_eq scope]
  · show wp logout _ s
    simp [logout, Ctx.setAuth]

/-- A login, and three bearers for two scopes. -/
def threeSeeds : Program (SessionOp .standard) Unit := do
  .prim (login .standard (lit "pw")) (.call _ _ (.login _))
  .prim (authCacheSeed (lit "a") (lit "t")) (.cacheSeed ..)
  .prim (authCacheSeed (lit "b") (lit "u")) (.cacheSeed ..)
  .prim (authCacheSeed (lit "a") (lit "v")) (.cacheSeed ..)

theorem three_seeds_sound :
    let s := scriptState threeSeeds.cmd Ctx.initial 5 []
    s.Sound ∧ s.auth.map (fun a => a.cache.map fun e => (e.scope, e.token)) =
      some [(lit "b", lit "u"), (lit "a", lit "v")] :=
  ⟨(session_stays_sound .standard threeSeeds _ _ _ (script_runs _ _ 5 [])).1, by decide +kernel⟩

end EncedoHem
