import EncedoHem.Lib.Checked
import EncedoHem.Proofs.Expiry

namespace EncedoHem
open Text Dialogue Double

/-- The largest value of `int64_t`. -/
def int64Max : Int := 2 ^ 63 - 1

/-- `(int64_t)d`, which means something only where the truncated value is one. -/
def toInt64 (d : Dbl) : Option Int := Checked.fit int64Max (trunc d)

/-- The number that the readers of a token find under the name. -/
def claimNumber (jwt key : Bytes) : Option Dbl :=
  (middleSegment jwt).bind fun seg =>
    if seg.length = 0 ∨ 1024 < seg.length then none
    else (b64urlDecode seg 1024).bind fun raw => (jsonParse raw).bind (·.getDouble key)

/-- `real_exp - AUTH_TOKEN_SKEW` of `ehem_auth_cache_seed` and `acquire_token`. -/
def storedExpiry64 (d : Dbl) : Option Int := do
  let exp ← toInt64 d
  Checked.sub int64Max exp tokenSkew

/-- `(exp - AUTH_CHALLENGE_DEADLINE) - now` of `challenge_drift_evident`. -/
def challengeDrift64 (d : Dbl) (now : Int) : Option Int := do
  let exp ← toInt64 d
  let device ← Checked.sub int64Max exp 60
  Checked.sub int64Max device now

/-- `iat - (int64_t)time(NULL)` of `ehem_ext_confirm_begin`. -/
def brokerDrift64 (d : Dbl) (now : Int) : Option Int := do
  let iat ← toInt64 d
  Checked.sub int64Max iat now

/-- The bearer's expiry is stored by defined steps, for what it is less the skew, and no lookup
after it finds the bearer. -/
structure StoredInRange (d : Dbl) (scope token : Bytes) (s : Ctx) : Prop where
  stored : ∃ exp, storedExpiry64 d = some exp ∧ exp = trunc d - 60 ∧
    s.auth.bind (·.cacheFind scope) = some ⟨scope, token, exp⟩
  past : ∀ now, trunc d ≤ now → s.freshEntry scope now = none

/-- The drift is computed by defined steps, and the evidence goes by it. -/
def EvidentInRange (d : Dbl) (challenge : Json) (now : Int) : Prop :=
  ∃ drift, challengeDrift64 d now = some drift ∧ drift = trunc d - 60 - now ∧
    challengeDriftEvident challenge now = (decide (tokenSkew < drift) || decide (drift < -tokenSkew))

theorem fits_int64 {x : Int} : Checked.Fits int64Max x ↔ -2 ^ 63 ≤ x ∧ x < 2 ^ 63 := by
  unfold Checked.Fits int64Max
  omega

theorem toInt64_eq {d : Dbl} {i : Int} : toInt64 d = some i ↔ Checked.Fits int64Max (trunc d) ∧ i = trunc d :=
  Checked.fit_eq_some

theorem storedExpiry64_eq {d : Dbl} {i : Int} : storedExpiry64 d = some i ↔
    Checked.Fits int64Max (trunc d) ∧ Checked.Fits int64Max (trunc d - 60) ∧ i = trunc d - 60 := by
  unfold storedExpiry64 Checked.sub tokenSkew
  simp only [Option.bind_eq_bind, Option.bind_eq_some_iff, toInt64_eq, Checked.fit_eq_some]
  constructor
  · rintro ⟨_, ⟨hd, rfl⟩, hs, rfl⟩
    exact ⟨hd, hs, rfl⟩
  · rintro ⟨hd, hs, rfl⟩
    exact ⟨_, ⟨hd, rfl⟩, hs, rfl⟩

theorem challengeDrift64_eq {d : Dbl} {now i : Int} : challengeDrift64 d now = some i ↔
    Checked.Fits int64Max (trunc d) ∧ Checked.Fits int64Max (trunc d - 60) ∧
      Checked.Fits int64Max (trunc d - 60 - now) ∧ i = trunc d - 60 - now := by
  unfold challengeDrift64 Checked.sub
  simp only [Option.bind_eq_bind, Option.bind_eq_some_iff, toInt64_eq, Checked.fit_eq_some]
  constructor
  · rintro ⟨_, ⟨hd, rfl⟩, _, ⟨he, rfl⟩, hs, rfl⟩
    exact ⟨hd, he, hs, rfl⟩
  · rintro ⟨hd, he, hs, rfl⟩
    exact ⟨_, ⟨hd, rfl⟩, _, ⟨he, rfl⟩, hs, rfl⟩

theorem brokerDrift64_eq {d : Dbl} {now i : Int} : brokerDrift64 d now = some i ↔
    Checked.Fits int64Max (trunc d) ∧ Checked.Fits int64Max (trunc d - now) ∧ i = trunc d - now := by
  unfold brokerDrift64 Checked.sub
  simp only [Option.bind_eq_bind, Option.bind_eq_some_iff, toInt64_eq, Checked.fit_eq_some]
  constructor
  · rintro ⟨_, ⟨hd, rfl⟩, hs, rfl⟩
    exact ⟨hd, hs, rfl⟩
  · rintro ⟨hd, hs, rfl⟩
    exact ⟨_, ⟨hd, rfl⟩, hs, rfl⟩

/-- What is read of a token is its number, cut off. -/
theorem claimOf_number (jwt key : Bytes) : claimOf jwt key = (claimNumber jwt key).map trunc := by
  unfold claimOf claimNumber Json.getInt64
  cases middleSegment jwt with
  | none => rfl
  | some seg =>
    dsimp only [Option.bind_some]
    split
    · rfl
    · cases b64urlDecode seg 1024 with
      | none => rfl
      | some raw =>
        dsimp only [Option.bind_some]
        cases jsonParse raw with
        | none => rfl
        | some root => rfl

/-- An entry is in range exactly where both the number and the number less the skew are. -/
theorem storedInRange_iff {d : Dbl} {scope token : Bytes} {s : Ctx}
    (h : s.auth.bind (·.cacheFind scope) = some ⟨scope, token, trunc d - 60⟩) :
    StoredInRange d scope token s ↔ -2 ^ 63 + 60 ≤ trunc d ∧ trunc d < 2 ^ 63 := by
  have hpast : ∀ now, trunc d ≤ now → s.freshEntry scope now = none := by
    intro now hn
    apply freshEntry_none h
    dsimp only
    omega
  constructor
  · intro hr
    obtain ⟨exp, hexp, -⟩ := hr.stored
    obtain ⟨hd, hs, -⟩ := storedExpiry64_eq.mp hexp
    rw [fits_int64] at hd hs
    omega
  · intro hb
    refine ⟨⟨_, storedExpiry64_eq.mpr ⟨fits_int64.mpr ?_, fits_int64.mpr ?_, rfl⟩, rfl, h⟩, hpast⟩
    · omega
    · omega

theorem evidentInRange_iff {d : Dbl} {challenge : Json} (h : challenge.getDouble (lit "exp") = some d) (now : Int) :
    EvidentInRange d challenge now ↔ -2 ^ 63 + 60 ≤ trunc d ∧ trunc d < 2 ^ 63 ∧
      -2 ^ 63 ≤ trunc d - 60 - now ∧ trunc d - 60 - now < 2 ^ 63 := by
  have hevident : challengeDriftEvident challenge now =
      (decide (tokenSkew < trunc d - 60 - now) || decide (trunc d - 60 - now < -tokenSkew)) := by
    unfold challengeDriftEvident Json.getInt64
    rw [h]
    rfl
  constructor
  · rintro ⟨drift, hdrift, -⟩
    obtain ⟨hd, he, hs, -⟩ := challengeDrift64_eq.mp hdrift
    rw [fits_int64] at hd he hs
    omega
  · intro hb
    refine ⟨_, challengeDrift64_eq.mpr ⟨fits_int64.mpr ?_, fits_int64.mpr ?_, fits_int64.mpr ?_, rfl⟩, rfl, hevident⟩
    · omega
    · omega
    · omega

/-- With memory granted the drift is the number of the authreq less the clock reading. -/
theorem wp_authreqDrift (authreq : Bytes) {d : Dbl} (h : claimNumber authreq (lit "iat") = some d) (s : Ctx) :
    wp (authreqDrift authreq) (fun es r _ => Granted es →
      ∃ now : Int, (⟨.wallTime, now⟩ : Event) ∈ es ∧ r = .ok (trunc d - now)) s := by
  have hclaim : claimOf authreq (lit "iat") = some (trunc d) := by
    rw [claimOf_number, h]
    rfl
  unfold authreqDrift
  rw [wp_bind]
  refine wp_peekClaim ?_ fun ok => ?_
  · rw [hclaim]
    dsimp only
    rw [wp_bind, wp_wallTime]
    intro now
    exact wp_pure.mpr fun _ => ⟨now, by simp, rfl⟩
  · cases ok with
    | false => exact fun es r s' _ hg => absurd (List.mem_append.mpr (.inl List.mem_cons_self)) hg
    | true =>
      simp only [↓reduceIte, hclaim]
      rw [wp_bind, wp_wallTime]
      intro now
      exact wp_pure.mpr fun _ => ⟨now, by simp, rfl⟩

/-- A time claim of a bearer, of either challenge or of an authreq stays within 64 bits, as a value
and in all that is subtracted from it, for exactly these numbers and clock readings. -/
theorem time_claims_in_range_iff (cfg : Config) :
    (∀ scope token d s es s', claimNumber token (lit "exp") = some d →
      Runs (authCacheSeed scope token) s es (.ok ()) s' → Granted es →
      (StoredInRange d scope token s' ↔ -2 ^ 63 + 60 ≤ trunc d ∧ trunc d < 2 ^ 63)) ∧
    (∀ scope token d now spent s es a s', claimNumber token (lit "exp") = some d → s.auth.isSome = true →
      Runs (acquireToken cfg scope now spent) s es (.ok a) s' → a.outcome = .ok token → Granted es →
      (StoredInRange d scope token s' ↔ -2 ^ 63 + 60 ≤ trunc d ∧ trunc d < 2 ^ 63)) ∧
    (∀ challenge d now, challenge.getDouble (lit "exp") = some d →
      (EvidentInRange d challenge now ↔ -2 ^ 63 + 60 ≤ trunc d ∧ trunc d < 2 ^ 63 ∧
        -2 ^ 63 ≤ trunc d - 60 - now ∧ trunc d - 60 - now < 2 ^ 63)) ∧
    (∀ authreq d s es r s', claimNumber authreq (lit "iat") = some d → Runs (authreqDrift authreq) s es r s' →
      Granted es → ∃ now : Int, (⟨.wallTime, now⟩ : Event) ∈ es ∧ r = .ok (trunc d - now) ∧
        (brokerDrift64 d now = some (trunc d - now) ↔ -2 ^ 63 ≤ trunc d ∧ trunc d < 2 ^ 63 ∧
          -2 ^ 63 ≤ trunc d - now ∧ trunc d - now < 2 ^ 63)) ∧
    (∀ challenge d eid spk jti exp, challenge.getDouble (lit "exp") = some d →
      initChallenge challenge = some (eid, spk, jti, exp) →
      (toInt64 d = some exp ↔ -2 ^ 63 ≤ trunc d ∧ trunc d < 2 ^ 63)) := by
  have hclaim : ∀ token d, claimNumber token (lit "exp") = some d → claimOf token (lit "exp") = some (trunc d) := by
    intro token d hd
    rw [claimOf_number, hd]
    rfl
  refine ⟨?_, ?_, ?_, ?_, ?_⟩
  · intro scope token d s es s' hd hrun hg
    obtain ⟨exp, hfind, hexp⟩ := wp_authCacheSeed_stored scope token s es _ s' hrun hg rfl
    rw [hclaim token d hd] at hexp
    rw [hexp] at hfind
    exact storedInRange_iff hfind
  · intro scope token d now spent s es a s' hd hs hrun ha hg
    have hstored := wp_acquireToken_stored cfg scope now spent hs es _ s' hrun hg a rfl token ha
    unfold StoredAt at hstored
    rw [hclaim token d hd] at hstored
    exact storedInRange_iff hstored
  · intro challenge d now hd
    exact evidentInRange_iff hd now
  · intro authreq d s es r s' hd hrun hg
    obtain ⟨now, hclock, hr⟩ := wp_authreqDrift authreq hd s es r s' hrun hg
    refine ⟨now, hclock, hr, ?_⟩
    rw [brokerDrift64_eq, fits_int64, fits_int64]
    simp only [and_true, and_assoc]
  · intro challenge d eid spk jti exp hd hc
    have hexp : exp = trunc d := by
      simp only [initChallenge, Json.getInt64, hd, Option.map_some, Option.bind_eq_bind, Option.bind_some,
        Option.bind_eq_some_iff, Option.some.injEq, Prod.mk.injEq] at hc
      obtain ⟨_, -, _, -, _, -, -, -, -, rfl⟩ := hc
      rfl
    rw [toInt64_eq, fits_int64, hexp]
    simp

/-- A bearer that asks for the given expiry. -/
def bearerFor (exp : String) : Bytes :=
  lit "h" ++ 46 :: (b64Chars .url false (lit ("\x7b\"exp\":" ++ exp ++ "\x7d")) ++ 46 :: lit "s")

/-- The context after a bearer has been seeded. -/
def seededCtx (exp : String) : Ctx := scriptState (authCacheSeed (lit "a") (bearerFor exp)) .initial 5 []

theorem ordinary_expiry_in_range : StoredInRange (ofInt 1754500000) (lit "a") (bearerFor "1754500000")
    (seededCtx "1754500000") := by
  have hrun := script_runs (authCacheSeed (lit "a") (bearerFor "1754500000")) .initial 5 []
  have hok : scriptResult (authCacheSeed (lit "a") (bearerFor "1754500000")) .initial 5 [] = .ok () := by
    decide +kernel
  rw [hok] at hrun
  exact ((time_claims_in_range_iff .standard).1 (lit "a") _ _ _ _ _ (by decide +kernel) hrun
    (granted_script _ _ _ _)).mpr (by decide +kernel)

/-- An expiry at the lower end of the type is stored by a subtraction that leaves it. -/
theorem least_expiry_leaves_range :
    claimNumber (bearerFor "-9223372036854775808") (lit "exp") = some (.fin (-2 ^ 52) 11) ∧
      scriptResult (authCacheSeed (lit "a") (bearerFor "-9223372036854775808")) .initial 5 [] = .ok () ∧
      ¬StoredInRange (.fin (-2 ^ 52) 11) (lit "a") (bearerFor "-9223372036854775808")
        (seededCtx "-9223372036854775808") := by
  have hnone : storedExpiry64 (.fin (-2 ^ 52) 11) = none := by decide +kernel
  refine ⟨by decide +kernel, by decide +kernel, fun h => ?_⟩
  obtain ⟨exp, hexp, -⟩ := h.stored
  rw [hnone] at hexp
  exact nomatch hexp

end EncedoHem
