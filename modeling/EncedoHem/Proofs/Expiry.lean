import EncedoHem.Proofs.Acquisition
import EncedoHem.Proofs.Codec
import EncedoHem.Scripted

namespace EncedoHem
open Text Dialogue Double

/-- The expiry a bearer asks for itself: the numeric `exp` of the object that its middle
segment encodes, however long that is. -/
def bearerExp (token : Bytes) : Option Int :=
  (middleSegment token).bind fun p => (b64urlDecode p p.length).bind fun raw =>
    (jsonParse raw).bind (·.getInt64 (lit "exp"))

/-- The middle segment is no longer than the buffer for what it decodes to. -/
def SegmentFits (token : Bytes) : Prop := ∀ p, middleSegment token = some p → p.length ≤ 1024

theorem length_dropPad (text : Bytes) : (dropPad text).length ≤ text.length := by
  unfold dropPad
  rw [List.length_reverse, ← @List.length_reverse _ text]
  exact (List.dropWhile_sublist _).length_le

/-- Room for as many bytes as there are characters is room enough. -/
theorem b64Decode_room {α : Alphabet} {text : Bytes} {room room' : Nat} (h : text.length ≤ room)
    (h' : text.length ≤ room') : b64Decode α text room = b64Decode α text room' := by
  have hp := length_dropPad text
  obtain ⟨hsome, hout, -⟩ := b64Decode_spec α text room
  obtain ⟨hsome', hout', -⟩ := b64Decode_spec α text room'
  have hiff : (b64Decode α text room).isSome = true ↔ (b64Decode α text room').isSome = true := by
    rw [hsome, hsome']
    constructor
    · rintro ⟨h1, h2, -⟩
      exact ⟨h1, h2, by omega⟩
    · rintro ⟨h1, h2, -⟩
      exact ⟨h1, h2, by omega⟩
  cases hd : b64Decode α text room with
  | none =>
    rw [hd] at hiff
    cases hd' : b64Decode α text room' with
    | none => rfl
    | some out' => simp [hd'] at hiff
  | some out =>
    rw [hd] at hiff
    obtain ⟨out', hd'⟩ := Option.isSome_iff_exists.mp (hiff.mp rfl)
    obtain ⟨-, -, vs, hv, hb⟩ := hout out hd
    obtain ⟨-, -, vs', hv', hb'⟩ := hout' out' hd'
    rw [hv, Option.some.injEq] at hv'
    rw [← hv', hb] at hb'
    rw [hd', List.map_injective_iff.mpr (fun a b => UInt8.toNat_inj.mp) hb']

/-- What the code reads of a bearer: its own expiry, as long as the segment fits. -/
theorem claimOf_exp (token : Bytes) : (SegmentFits token → claimOf token (lit "exp") = bearerExp token) ∧
    (¬SegmentFits token → claimOf token (lit "exp") = none) := by
  unfold SegmentFits claimOf bearerExp
  cases hm : middleSegment token with
  | none => exact ⟨fun _ => rfl, fun _ => rfl⟩
  | some p =>
    rw [Option.bind_some, Option.bind_some]
    constructor
    · intro hfit
      have hp : p.length ≤ 1024 := hfit p rfl
      by_cases h0 : p.length = 0
      · rw [if_pos (.inl h0), List.length_eq_zero_iff.mp h0]
        rfl
      · rw [if_neg (by omega)]
        exact congrArg (Option.bind · _) (b64Decode_room hp (Nat.le_refl _))
    · intro hfit
      have hp : 1024 < p.length := by
        by_contra hle
        exact hfit fun q hq => by rw [← Option.some.inj hq]; omega
      rw [if_pos (.inr hp)]

/-- No memory was denied. -/
def Granted (es : List Event) : Prop := (⟨.alloc, false⟩ : Event) ∉ es

theorem Granted.left {es es' : List Event} (h : Granted (es ++ es')) : Granted es :=
  fun he => h (List.mem_append.mpr (.inl he))

theorem Granted.right {es es' : List Event} (h : Granted (es ++ es')) : Granted es' :=
  fun he => h (List.mem_append.mpr (.inr he))

theorem granted_alloc {ok : Bool} {es : List Event} (h : Granted (⟨.alloc, ok⟩ :: es)) : ok = true := by
  cases ok with
  | true => rfl
  | false => exact absurd List.mem_cons_self h

theorem Calm.no_clock {es : List Event} (h : Calm es) (n : Int) : (⟨.authNow, n⟩ : Event) ∉ es :=
  fun he => nomatch h _ he

/-- The entry that is stored for the scope goes by the claim that was read of the bearer,
or by the one reading of the clock. -/
def StoredBy (scope token : Bytes) (es : List Event) (s : Ctx) : Prop :=
  ∃ exp, s.auth.bind (·.cacheFind scope) = some ⟨scope, token, exp⟩ ∧
    match claimOf token (lit "exp") with
    | some e => exp = e - tokenSkew
    | none => ∃ now : Int, (∀ n, (⟨.authNow, n⟩ : Event) ∈ es ↔ n = now) ∧ exp = now + tokenLifetime - tokenSkew

theorem wp_authCacheSeed_stored (scope token : Bytes) (s : Ctx) :
    wp (authCacheSeed scope token)
      (fun es r s' => Granted es → r = .ok () → StoredBy scope token es s') s := by
  have hstore : ∀ (pre : List Event) (a : Auth) (s₁ : Ctx), Calm pre → s₁.auth = some a → wp (do
      let exp ← decodeBearerExp token
      let realExp ← expiryOr exp
      let put ← cachePut scope token (realExp - tokenSkew)
      if put then pure () else outOfMemory)
      (fun es r s' => Granted (pre ++ es) → r = .ok () → StoredBy scope token (pre ++ es) s') s₁ := by
    intro pre a s₁ hpre ha
    have hput : ∀ e : Int, wp (do
        let put ← cachePut scope token (e - tokenSkew)
        if put then pure () else outOfMemory : Cmd Unit)
        (fun es r s' => r = .ok () → Calm es ∧
          s'.auth.bind (·.cacheFind scope) = some ⟨scope, token, e - tokenSkew⟩) s₁ := by
      intro e
      rw [wp_bind]
      refine wp_cachePut (fun _ _ => wp_ctxFail_of fun _ _ _ _ _ hr => nomatch hr) fun es hc => ?_
      exact wp_pure.mpr fun _ => ⟨by rw [List.append_nil]; exact hc, find_put ha ..⟩
    have hrest : ∀ mid, Calm mid → wp (do
        let realExp ← expiryOr (claimOf token (lit "exp"))
        let put ← cachePut scope token (realExp - tokenSkew)
        if put then pure () else outOfMemory)
        (fun es r s' => r = .ok () → StoredBy scope token (pre ++ (mid ++ es)) s') s₁ := by
      intro mid hmid
      cases hc : claimOf token (lit "exp") with
      | some e =>
        refine wp_mono (hput e) fun es r s' h hr => ⟨e - tokenSkew, (h hr).2, ?_⟩
        rw [hc]
      | none =>
        unfold expiryOr
        rw [Cmd.bind_assoc, wp_bind, wp_authNow]
        intro now
        refine wp_mono (hput (now + tokenLifetime)) fun es r s' h hr => ?_
        obtain ⟨hes, hfind⟩ := h hr
        refine ⟨_, hfind, ?_⟩
        rw [hc]
        refine ⟨now, fun n => ?_, rfl⟩
        simp only [List.mem_append, hpre.no_clock, hmid.no_clock, hes.no_clock, List.mem_singleton,
          Event.mk.injEq, heq_eq_eq, true_and, false_or, or_false]
    rw [wp_bind]
    refine wp_peekClaim ?_ fun ok => ?_
    · exact wp_mono (hrest [] .nil) fun _ _ _ h _ => h
    · cases ok with
      | true => exact wp_mono (hrest _ (calm_alloc true)) fun _ _ _ h _ => h
      | false =>
        intro es r s' _ hg
        exact absurd (List.mem_append.mpr (.inr (List.mem_append.mpr (.inl List.mem_cons_self)))) hg
  unfold authCacheSeed
  rw [wp_bind]
  refine wp_needAuth (fun a ha => ?_) (fun es hn hc => ?_) fun _ _ _ _ _ hr => nomatch hr
  · exact hstore [] a s .nil ha
  · exact hstore es .fresh _ hc rfl

/-- A session state that is there stays. -/
def authKept : Contract Op Ans Ctx where
  rel s _ s' := s.auth.isSome = true → s'.auth.isSome = true
  refl _ := id
  trans h h' := fun hs => h' (h hs)

theorem authKept_authOnly : AuthOnly authKept where
  event _ _ := id
  still _ _ h _ _ hs := h ▸ hs

theorem authKept_engine (cfg : Config) : Engine cfg (fun _ => False) authKept := by
  refine authKept_authOnly.engine (fun _ => .modify fun s hs => ?_) (fun _ _ _ h => h.elim)
    (fun _ h => h.elim) fun _ h => h.elim
  show (s.auth.map _).isSome = true
  rw [Option.isSome_map]
  exact hs

/-- With memory granted, the value and the state that a success ends in satisfy `V`. -/
def Leaves {α : Type} (V : α → Ctx → Prop) (es : List Event) (r : Except Rc α) (s' : Ctx) : Prop :=
  Granted es → ∀ a, r = .ok a → V a s'

theorem wp_leaves_bind {α β : Type} {x : Cmd α} {f : α → Cmd β} {V : β → Ctx → Prop} {s : Ctx}
    (hx : Keeps authKept x) (hs : s.auth.isSome = true)
    (hf : ∀ a s₁, s₁.auth.isSome = true → wp (f a) (Leaves V) s₁) : wp (x >>= f) (Leaves V) s := by
  refine wp_bind_of (hx.run s) (fun es a s₁ h => ?_) fun _ _ _ _ _ _ hb => nomatch hb
  exact wp_mono (hf a s₁ (h hs)) fun _ _ _ h' hg => h' hg.right

theorem wp_leaves_ctxFail {α : Type} {V : α → Ctx → Prop} {rc : Rc} {status : Int} {payload : Option Bytes}
    {fmt : List Piece} {s : Ctx} : wp (ctxFail rc status payload fmt) (Leaves V) s :=
  wp_ctxFail_of fun _ _ _ _ _ _ _ hb => nomatch hb

/-- The entry that an acquisition stores goes by the claim that was read of the bearer, or
by the acquisition's own clock reading. -/
def StoredAt (now : Int) (scope token : Bytes) (s : Ctx) : Prop :=
  s.auth.bind (·.cacheFind scope) =
    some ⟨scope, token, (claimOf token (lit "exp")).getD (now + tokenLifetime) - tokenSkew⟩

theorem find_afterUse (s : Ctx) (scope : Bytes) :
    (s.setAuth (s.auth.map Auth.afterUse)).auth.bind (·.cacheFind scope) =
      s.auth.bind (·.cacheFind scope) := by
  show (s.auth.map Auth.afterUse).bind _ = _
  cases s.auth with
  | none => rfl
  | some a =>
    show (Auth.afterUse a).cacheFind scope = a.cacheFind scope
    unfold Auth.afterUse
    split <;> rfl

theorem wp_redeemEjwt_stored (cfg : Config) (scope ejwt : Bytes) (now : Int) {s : Ctx}
    (hs : s.auth.isSome = true) :
    wp (redeemEjwt cfg scope ejwt now) (Leaves fun token => StoredAt now scope token) s := by
  have he := authKept_engine cfg
  refine wp_leaves_bind he.need hs fun _ s₁ h₁ => wp_leaves_bind authKept_authOnly.requestPlainJson h₁ ?_
  intro result s₂ h₂
  split
  · exact wp_leaves_ctxFail
  · rename_i token _
    obtain ⟨a, ha⟩ := Option.isSome_iff_exists.mp h₂
    have hput : wp (do
        let put ← cachePut scope token ((claimOf token (lit "exp")).getD (now + tokenLifetime) - tokenSkew)
        if put then do
          modifyAuth Auth.afterUse
          pure token
        else outOfMemory : Cmd Bytes)
        (fun _ r s' => ∀ t, r = .ok t → StoredAt now scope t s') s₂ := by
      rw [wp_bind]
      refine wp_cachePut (fun _ _ => wp_ctxFail_of fun _ _ _ _ _ _ hr => nomatch hr) fun es hc => ?_
      dsimp only
      rw [if_pos rfl]
      unfold modifyAuth
      rw [wp_bind, wp_modifyCtx]
      refine wp_pure.mpr fun t ht => ?_
      rw [← Except.ok.inj ht]
      exact (find_afterUse _ _).trans (find_put ha ..)
    rw [wp_bind]
    refine wp_peekClaim ?_ fun ok => ?_
    · exact wp_mono hput fun _ _ _ h _ => h
    · cases ok with
      | true => exact wp_mono hput fun _ _ _ h _ => h
      | false =>
        intro es r s' _ hg
        exact absurd (List.mem_append.mpr (.inl List.mem_cons_self)) hg

theorem wp_answerChallenge_stored (cfg : Config) (scope : Bytes) (now : Int) (challenge : Json) {s : Ctx}
    (hs : s.auth.isSome = true) :
    wp (answerChallenge cfg scope now challenge) (Leaves fun token => StoredAt now scope token) s := by
  have he := authKept_engine cfg
  unfold answerChallenge
  split
  · refine wp_leaves_bind (he.toMachinery.toNeutral.noteUsername he.username _) hs fun _ s₁ h₁ => ?_
    split
    · exact wp_leaves_ctxFail
    · refine wp_leaves_bind (.attempt (he.deriveEjwt ..)) h₁ fun ejwt s₂ h₂ => ?_
      split
      · exact wp_leaves_ctxFail
      · exact wp_redeemEjwt_stored cfg scope _ now h₂
  · exact wp_leaves_ctxFail

theorem wp_acquireToken_stored (cfg : Config) (scope : Bytes) (now : Int) (spent : Bool) {s : Ctx}
    (hs : s.auth.isSome = true) :
    wp (acquireToken cfg scope now spent)
      (Leaves fun a s' => ∀ token, a.outcome = .ok token → StoredAt now scope token s') s := by
  have he := authKept_engine cfg
  refine wp_leaves_bind (he.ask rfl) hs fun init s₁ h₁ => ?_
  have hfail : ∀ {a : Acquired} {s₂ : Ctx}, Failed a.outcome → wp (pure a)
      (Leaves fun a s' => ∀ token, a.outcome = .ok token → StoredAt now scope token s') s₂ := by
    rintro a s₂ ⟨rc, hrc⟩
    refine wp_pure.mpr fun _ b hb token ht => ?_
    rw [← Except.ok.inj hb, hrc] at ht
    exact nomatch ht
  split
  · rw [wp_bind, wp_attempt]
    refine wp_ctxFail_of fun es d _ _ _ => ?_
    exact wp_mono (hfail ⟨_, rfl⟩) fun _ _ _ h hg => h hg.right
  · refine wp_leaves_bind (he.loggingIn.fetchChallenge spent) h₁ fun ⟨r, spent⟩ s₂ h₂ => ?_
    dsimp only
    cases r with
    | error rc => exact hfail ⟨rc, rfl⟩
    | ok challenge =>
      rw [wp_bind, wp_attempt]
      refine wp_mono (wp_answerChallenge_stored cfg scope now challenge h₂) fun es r s₃ h => ?_
      refine wp_pure.mpr fun hg a ha token ht => ?_
      rw [← Except.ok.inj ha] at ht
      exact h hg.left token ht

/-- The text of a payload holds no dot. -/
theorem no_dot (x : Bytes) : (46 : UInt8) ∉ b64Chars .url false x := by
  obtain ⟨cs, vs, zs, ht, hv, -, -⟩ := (written .url false x).carried
  rw [ht, if_neg Bool.false_ne_true, List.append_nil]
  intro hmem
  have hin : (46 : UInt8) ∈ Alphabet.url.chars := Alphabet.url.values_isSome.mp (by rw [hv]; rfl) 46 hmem
  exact absurd hin (by decide)

theorem middleSegment_dotted {h p : Bytes} (hh : (46 : UInt8) ∉ h) (hp : (46 : UInt8) ∉ p) (sig : Bytes) :
    middleSegment (h ++ 46 :: (p ++ 46 :: sig)) = some p := by
  unfold middleSegment
  rw [cutAt_append hh]
  show (cutAt 46 (p ++ 46 :: sig)).bind _ = some p
  rw [cutAt_append hp]
  rfl

/-- The payload is read back as it was encoded. -/
theorem bearerExp_encoded {h : Bytes} (hh : (46 : UInt8) ∉ h) (x sig : Bytes) :
    bearerExp (h ++ 46 :: (b64Chars .url false x ++ 46 :: sig)) =
      (jsonParse x).bind (·.getInt64 (lit "exp")) := by
  have hw := written .url false x
  have hlen : x.length ≤ (b64Chars .url false x).length := by
    have hl := hw.length.1
    unfold encodedLen b64urlEncodedLen at hl
    simp only [Bool.false_eq_true, if_false] at hl
    split at hl <;> omega
  have hdec : b64urlDecode (b64Chars .url false x) (b64Chars .url false x).length = some x :=
    b64Decode_written hw hlen
  unfold bearerExp
  rw [middleSegment_dotted hh (no_dot x), Option.bind_some, hdec, Option.bind_some]

/-- A bearer whose payload is an object with an integer `exp` asks for just that. -/
theorem bearerExp_of_claim {h x : Bytes} (hh : (46 : UInt8) ∉ h) (sig : Bytes) {root : Json} {e : Int}
    (hroot : jsonParse x = some root) (hexp : root.get (lit "exp") = some (.num (ofInt e)))
    (he : e.natAbs < 2 ^ 53) : bearerExp (h ++ 46 :: (b64Chars .url false x ++ 46 :: sig)) = some e := by
  rw [bearerExp_encoded hh, hroot, Option.bind_some]
  unfold Json.getInt64 Json.getDouble
  rw [hexp, Option.map_some, trunc_ofInt he]

/-- A lookup at or after the expiry that is stored finds nothing. -/
theorem freshEntry_none {s : Ctx} {scope : Bytes} {e : TokenEntry} {now : Int}
    (h : s.auth.bind (·.cacheFind scope) = some e) (hn : e.exp ≤ now) : s.freshEntry scope now = none := by
  unfold Ctx.freshEntry
  rw [h, Option.filter_some, if_neg (by simpa using hn)]

theorem claimOf_exp_none {token : Bytes} (h : bearerExp token = none) : claimOf token (lit "exp") = none := by
  by_cases hfit : SegmentFits token
  · rw [(claimOf_exp token).1 hfit, h]
  · exact (claimOf_exp token).2 hfit

/-- An expiry that a bearer asks for is kept if and only if its payload fits the buffer it
is decoded to, or the hour that stands in for it comes to the same; where it asks for
none, the hour counts from the clock reading. An expiry that is kept is kept by every lookup. -/
theorem expiry_kept_iff (cfg : Config) (scope token : Bytes) :
    (∀ h x sig root e, (46 : UInt8) ∉ h → jsonParse x = some root →
      root.get (lit "exp") = some (.num (ofInt e)) → e.natAbs < 2 ^ 53 →
      bearerExp (h ++ 46 :: (b64Chars .url false x ++ 46 :: sig)) = some e) ∧
    (∀ s es s', Runs (authCacheSeed scope token) s es (.ok ()) s' → Granted es →
      ∃ exp, s'.auth.bind (·.cacheFind scope) = some ⟨scope, token, exp⟩ ∧
        (∀ e, bearerExp token = some e →
          (exp = e - 60 ↔ SegmentFits token ∨ (⟨.authNow, e - 3600⟩ : Event) ∈ es)) ∧
        (bearerExp token = none → ∃ now : Int, (⟨.authNow, now⟩ : Event) ∈ es ∧ exp = now + 3600 - 60)) ∧
    (∀ now spent s es a s', s.auth.isSome = true → Runs (acquireToken cfg scope now spent) s es (.ok a) s' →
      a.outcome = .ok token → Granted es →
      ∃ exp, s'.auth.bind (·.cacheFind scope) = some ⟨scope, token, exp⟩ ∧
        (∀ e, bearerExp token = some e → (exp = e - 60 ↔ SegmentFits token ∨ e - 3600 = now)) ∧
        (bearerExp token = none → exp = now + 3600 - 60)) ∧
    ∀ (s : Ctx) exp now, s.auth.bind (·.cacheFind scope) = some ⟨scope, token, exp⟩ → exp ≤ now →
      s.freshEntry scope now = none := by
  refine ⟨fun h x sig root e hh hroot hexp he => bearerExp_of_claim hh sig hroot hexp he,
    fun s es s' hrun hg => ?_, fun now spent s es a s' hs hrun ha hg => ?_,
    fun s exp now h hn => freshEntry_none h hn⟩
  · obtain ⟨exp, hfind, hexp⟩ := wp_authCacheSeed_stored scope token s es _ s' hrun hg rfl
    unfold tokenSkew tokenLifetime at hexp
    refine ⟨exp, hfind, ?_, ?_⟩
    · intro e he
      by_cases hfit : SegmentFits token
      · rw [(claimOf_exp token).1 hfit, he] at hexp
        exact ⟨fun _ => .inl hfit, fun _ => hexp⟩
      · rw [(claimOf_exp token).2 hfit] at hexp
        obtain ⟨now, hclock, hexp⟩ := hexp
        simp only [hfit, false_or]
        rw [hclock]
        show exp = e - 60 ↔ (e - 3600 : Int) = now
        omega
    · intro hn
      rw [claimOf_exp_none hn] at hexp
      obtain ⟨now, hclock, hexp⟩ := hexp
      exact ⟨now, (hclock now).mpr rfl, hexp⟩
  · have hstored := wp_acquireToken_stored cfg scope now spent hs es _ s' hrun hg a rfl token ha
    refine ⟨_, hstored, ?_, ?_⟩
    · intro e he
      unfold tokenSkew tokenLifetime
      by_cases hfit : SegmentFits token
      · rw [(claimOf_exp token).1 hfit, he]
        simp [hfit]
      · rw [(claimOf_exp token).2 hfit]
        simp only [hfit, Option.getD_none, false_or]
        omega
    · intro hn
      rw [claimOf_exp_none hn]
      rfl

/-- A script has all the memory that is asked for. -/
theorem granted_script {α : Type} (x : Cmd α) (s : Ctx) (clock : Int) (answers : List Answer) :
    Granted (scriptEvents x s clock answers) := by
  intro he
  rcases play_answers he with h | ⟨h', i, h⟩
  · exact absurd h List.not_mem_nil
  · obtain ⟨hop, hans⟩ := Event.mk.inj h
    subst hop
    exact nomatch eq_of_heq hans

def shortBearer : Bytes := lit "h" ++ 46 :: (b64Chars .url false (lit "\x7b\"exp\":100\x7d") ++ 46 :: lit "s")

theorem short_bearer_kept : ∃ exp, (scriptState (authCacheSeed (lit "a") shortBearer) Ctx.initial 5 []).auth.bind
    (·.cacheFind (lit "a")) = some ⟨lit "a", shortBearer, exp⟩ ∧ exp = 100 - 60 := by
  have hrun := script_runs (authCacheSeed (lit "a") shortBearer) Ctx.initial 5 []
  have hok : scriptResult (authCacheSeed (lit "a") shortBearer) Ctx.initial 5 [] = .ok () := by decide +kernel
  rw [hok] at hrun
  obtain ⟨exp, hfind, hexp, -⟩ := (expiry_kept_iff .standard (lit "a") shortBearer).2.1 _ _ _ hrun
    (granted_script _ _ _ _)
  have hclaim : bearerExp shortBearer = some 100 := by decide +kernel
  refine ⟨exp, hfind, (hexp 100 hclaim).mpr (.inl fun p hp => ?_)⟩
  have hlen : (middleSegment shortBearer).map (·.length) = some 15 := by decide +kernel
  rw [hp] at hlen
  have : p.length = 15 := Option.some.inj hlen
  omega

/-- An expiry of 100, in a payload that is too long. -/
def longPayload : Bytes := lit "\x7b\"exp\":100\x7d" ++ List.replicate 760 32

def longBearer : Bytes := lit "h" ++ 46 :: (b64Chars .url false longPayload ++ 46 :: lit "s")

theorem long_bearer_outlived : bearerExp longBearer = some 100 ∧
    ((scriptState (authCacheSeed (lit "a") longBearer) Ctx.initial 5 []).auth.bind
      (·.cacheFind (lit "a"))).map (·.exp) = some (5 + 3600 - 60) := by
  constructor
  · exact (bearerExp_encoded (by decide) longPayload (lit "s")).trans (by decide +kernel)
  · decide +kernel

end EncedoHem
