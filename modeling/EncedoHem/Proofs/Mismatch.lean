import EncedoHem.Proofs.Dispatches
import EncedoHem.TransportCurl

namespace EncedoHem
open Text Dialogue

/-- The texts libcurl reports a host name mismatch with: one names the certificate's
subject and the host, the other the host alone. -/
inductive Mismatch where
  | subject (c h : Bytes)
  | altName (h : Bytes)
  deriving DecidableEq

/-- Names are C strings: what is printed of them ends at their first zero. -/
def Mismatch.text : Mismatch → Bytes
  | .subject c h => lit "SSL: certificate subject name '" ++ cstr c ++
      lit "' does not match target host name '" ++ cstr h ++ lit "'"
  | .altName h => lit "SSL: no alternative certificate subject name matches target host name '" ++
      cstr h ++ lit "'"

/-- The names that the text shows. -/
def Mismatch.names : Mismatch → List Bytes
  | .subject c h => [c, h]
  | .altName h => [h]

/-- The name reads like a report of an expired certificate. -/
def looksExpired (name : Bytes) : Bool := expiredTexts.any fun t => contains t (cstr name)

theorem mem_text_cases {t : Bytes} (ht : t ∈ expiredTexts) :
    t = lit "expired" ∨ t = lit "date error, current date after" ∨ t = lit "ASN_AFTER_DATE" := by
  simpa [expiredTexts] using ht

/-- None of the texts holds a quote, so that none reaches across the quotes
around a name. -/
theorem quote_free {t : Bytes} (ht : t ∈ expiredTexts) : (39 : UInt8) ∉ t := by
  obtain rfl | rfl | rfl := mem_text_cases ht
  · decide
  · decide
  · decide

/-- The parts of the text that are libcurl's own hold none of them. -/
theorem frame_clean {t : Bytes} (ht : t ∈ expiredTexts) :
    contains t (lit "SSL: certificate subject name ") = false ∧
    contains t (lit " does not match target host name ") = false ∧
    contains t (lit "SSL: no alternative certificate subject name matches target host name ") = false ∧
    contains t [] = false := by
  obtain rfl | rfl | rfl := mem_text_cases ht
  · decide +kernel
  · decide +kernel
  · decide +kernel

/-- In a text that quotes a name, a needle without quotes is in the name or behind it. -/
theorem contains_quoted {t p n r : Bytes} (hq : (39 : UInt8) ∉ t) (hp : contains t p = false) :
    contains t (p ++ 39 :: (n ++ 39 :: r)) = (contains t n || contains t r) := by
  rw [contains_append_cons hq, contains_append_cons hq, hp, Bool.false_or]

theorem Mismatch.text_subject (c h : Bytes) : (Mismatch.subject c h).text =
    lit "SSL: certificate subject name " ++ 39 ::
      (cstr c ++ 39 :: (lit " does not match target host name " ++ 39 :: (cstr h ++ 39 :: []))) := by
  have hs : lit "SSL: certificate subject name '" = lit "SSL: certificate subject name " ++ [39] := by
    decide +kernel
  have hm : lit "' does not match target host name '" =
      39 :: (lit " does not match target host name " ++ [39]) := by decide +kernel
  have hq : lit "'" = [39] := by decide +kernel
  rw [Mismatch.text, hs, hm, hq]
  simp only [List.append_assoc, List.cons_append, List.nil_append]

theorem Mismatch.text_altName (h : Bytes) : (Mismatch.altName h).text =
    lit "SSL: no alternative certificate subject name matches target host name " ++ 39 ::
      (cstr h ++ 39 :: []) := by
  have ha : lit "SSL: no alternative certificate subject name matches target host name '" =
      lit "SSL: no alternative certificate subject name matches target host name " ++ [39] := by decide +kernel
  have hq : lit "'" = [39] := by decide +kernel
  rw [Mismatch.text, ha, hq]
  simp only [List.append_assoc, List.cons_append, List.nil_append]

theorem Mismatch.contains_text {t : Bytes} (ht : t ∈ expiredTexts) (m : Mismatch) :
    contains t m.text = m.names.any fun n => contains t (cstr n) := by
  obtain ⟨hs, hm, ha, hn⟩ := frame_clean ht
  have hq := quote_free ht
  cases m with
  | subject c h =>
    have hh := contains_quoted (n := cstr h) (r := []) hq hm
    have hc := fun r => contains_quoted (n := cstr c) (r := r) hq hs
    rw [Mismatch.text_subject, hc, hh, hn]
    rfl
  | altName h =>
    have hh := contains_quoted (n := cstr h) (r := []) hq ha
    rw [Mismatch.text_altName, hh, hn]
    rfl

/-- The text is a C string itself. -/
theorem Mismatch.cstr_text (m : Mismatch) : cstr m.text = m.text := by
  have hlit : ∀ s : Bytes, s.all (· ≠ 0) = true → ∀ x ∈ s, x ≠ 0 := by
    intro s hs x hx
    simpa using List.all_eq_true.mp hs x hx
  refine cstr_of_no_zero ?_
  cases m with
  | subject c h =>
    simp only [Mismatch.text, List.mem_append]
    rintro x ((((hx | hx) | hx) | hx) | hx)
    · exact hlit _ (by decide) x hx
    · exact no_zero_of_mem_cstr hx
    · exact hlit _ (by decide) x hx
    · exact no_zero_of_mem_cstr hx
    · exact hlit _ (by decide) x hx
  | altName h =>
    simp only [Mismatch.text, List.mem_append]
    rintro x ((hx | hx) | hx)
    · exact hlit _ (by decide) x hx
    · exact no_zero_of_mem_cstr hx
    · exact hlit _ (by decide) x hx

/-- The fallback on the text takes a mismatch for an expired certificate exactly
when one of the names shown looks like it. -/
theorem Mismatch.looksExpired_iff (m : Mismatch) :
    expiredTexts.any (fun t => contains t (cstr m.text)) = m.names.any looksExpired := by
  rw [m.cstr_text, Bool.eq_iff_iff]
  simp only [List.any_eq_true, looksExpired]
  constructor
  · rintro ⟨t, ht, h⟩
    rw [m.contains_text ht] at h
    obtain ⟨n, hn, h⟩ := List.any_eq_true.mp h
    exact ⟨n, hn, t, ht, h⟩
  · rintro ⟨n, hn, t, ht, h⟩
    refine ⟨t, ht, ?_⟩
    rw [m.contains_text ht]
    exact List.any_eq_true.mpr ⟨n, hn, h⟩

theorem Mismatch.verdict {code : CurlCode} {verifyResult : Int} (m : Mismatch)
    (hc : code = .peerFailedVerification ∨ code = .sslConnectError)
    (h10 : verifyResult ≠ 10) (h151 : verifyResult ≠ -151) :
    curlTlsExpired code verifyResult (some m.text) = false ↔
      verifyResult = 9 ∨ verifyResult = -150 ∨ ∀ n ∈ m.names, looksExpired n = false := by
  have hcode : ¬(code ≠ .peerFailedVerification ∧ code ≠ .sslConnectError) := by
    rcases hc with rfl | rfl
    · simp
    · simp
  rw [curlTlsExpired, if_neg hcode, if_neg (by simp [h10, h151])]
  by_cases hv : verifyResult = 9 ∨ verifyResult = -150
  · rw [if_pos hv]
    exact ⟨fun _ => by rw [← or_assoc]; exact .inl hv, fun _ => rfl⟩
  · rw [if_neg hv, m.looksExpired_iff, ← or_assoc, or_iff_right hv, List.any_eq_false]
    simp

/-- A dispatch that is not verified at all. -/
def Event.relaxed : Event → Bool
  | ⟨.send _ req, _⟩ => req.tlsOverride = .relax
  | _ => false

/-- What the transport reports of a transfer that failed with the mismatch text. -/
def Mismatch.failure (m : Mismatch) (code : CurlCode) (verifyResult : Int) (connected : Bool) :
    Answer :=
  .failed (curlMapError code connected) (curlTlsExpired code verifyResult (some m.text))
    ((cstr m.text).take 255)

/-- No request that has a dispatch of its own fail that way starts an unverified
exchange over it, or leaves the verdict on record. -/
def Mismatch.NoRecovery (m : Mismatch) (code : CurlCode) (verifyResult : Int) : Prop :=
  ∀ (cfg : Config) (c : Call) (s s' : Ctx) (r : Except Rc Bytes) (connected : Bool)
    (pre post : List Event) (scope : Option Bytes) (req : Request),
    Runs (requestRaw cfg c.method c.path c.body c.scope c.ov) s
      (pre ++ ⟨.send scope req, m.failure code verifyResult connected⟩ :: post) r s' →
    c.sent scope req = true →
    (∀ e ∈ post, e.relaxed = false) ∧ s'.lastError.tlsExpired = false

theorem Mismatch.noRecovery_of_verdict {m : Mismatch} {code : CurlCode} {verifyResult : Int}
    (h : curlTlsExpired code verifyResult (some m.text) = false) : m.NoRecovery code verifyResult := by
  intro cfg c s s' r connected pre post scope req hr hs
  have hlost : c.Lost (curlMapError code connected)
      ⟨.send scope req, m.failure code verifyResult connected⟩ :=
    ⟨hs, (cstr m.text).take 255, by rw [Mismatch.failure, h]⟩
  obtain ⟨hp, -, -, hx⟩ := lost_dispatch_ends cfg c s _ r s' hr pre _ post _ rfl hlost
  rw [hp]
  exact ⟨fun e he => absurd he List.not_mem_nil, hx⟩

/-- A request for the device's version, made without a scope. -/
def versionCall : Call := ⟨.get, lit "/api/system/version", none, none, .default⟩

theorem recovery_of_verdict (why : SendFailure) (detail : Bytes) : ∃ req post,
    scriptEvents (requestRaw .standard versionCall.method versionCall.path versionCall.body
      versionCall.scope versionCall.ov) .initial 0 [.failed why true detail] =
        ⟨.send none req, .failed why true detail⟩ :: post ∧
    versionCall.sent none req = true ∧ post.any Event.relaxed = true := ⟨_, _, rfl, rfl, rfl⟩

theorem Mismatch.verdict_of_noRecovery {m : Mismatch} {code : CurlCode} {verifyResult : Int}
    (h : m.NoRecovery code verifyResult) : curlTlsExpired code verifyResult (some m.text) = false := by
  by_contra hv
  have hv : curlTlsExpired code verifyResult (some m.text) = true := by simpa using hv
  obtain ⟨req, post, he, hs, hr⟩ :=
    recovery_of_verdict (curlMapError code true) ((cstr m.text).take 255)
  have hrun := script_runs (requestRaw .standard versionCall.method versionCall.path versionCall.body
      versionCall.scope versionCall.ov) .initial 0
    [.failed (curlMapError code true) true ((cstr m.text).take 255)]
  have hf : m.failure code verifyResult true =
      .failed (curlMapError code true) true ((cstr m.text).take 255) := by rw [Mismatch.failure, hv]
  rw [he, ← hf] at hrun
  obtain ⟨e, hm, hx⟩ := List.any_eq_true.mp hr
  have hno := (h _ _ _ _ _ true [] post none req hrun hs).1 e hm
  rw [hx] at hno
  exact Bool.noConfusion hno

/-- Exactly when a host name mismatch is not taken for an expired certificate, and
when the requests that fail with it start no recovery: the backend says that the
certificate is not yet valid, or no name shown looks like the report of an expiry. -/
theorem mismatch_unclassified_iff (m : Mismatch) (code : CurlCode) (verifyResult : Int)
    (hc : code = .peerFailedVerification ∨ code = .sslConnectError)
    (h10 : verifyResult ≠ 10) (h151 : verifyResult ≠ -151) :
    (curlTlsExpired code verifyResult (some m.text) = false ↔
      verifyResult = 9 ∨ verifyResult = -150 ∨ ∀ n ∈ m.names, looksExpired n = false) ∧
    (m.NoRecovery code verifyResult ↔
      verifyResult = 9 ∨ verifyResult = -150 ∨ ∀ n ∈ m.names, looksExpired n = false) := by
  rw [← m.verdict hc h10 h151]
  exact ⟨Iff.rfl, Mismatch.verdict_of_noRecovery, Mismatch.noRecovery_of_verdict⟩

theorem mismatch_unclassified_plain :
    let m := Mismatch.subject (lit "hem.example") (lit "my.ence.do")
    curlTlsExpired .peerFailedVerification 0 (some m.text) = false ∧
      m.NoRecovery .peerFailedVerification 0 :=
  have h := mismatch_unclassified_iff (.subject (lit "hem.example") (lit "my.ence.do"))
    .peerFailedVerification 0 (.inl rfl) (by decide) (by decide)
  have hn : ∀ n ∈ (Mismatch.subject (lit "hem.example") (lit "my.ence.do")).names,
      looksExpired n = false := by decide +kernel
  ⟨h.1.mpr (.inr (.inr hn)), h.2.mpr (.inr (.inr hn))⟩

/-- A certificate for `expired.example` does it: the mismatch is taken for an expired
certificate, and the next dispatch is not verified. -/
theorem mismatch_steered_by_name :
    ¬∀ (m : Mismatch) (code : CurlCode) (verifyResult : Int),
      code = .peerFailedVerification ∨ code = .sslConnectError →
      verifyResult ≠ 10 → verifyResult ≠ -151 →
      curlTlsExpired code verifyResult (some m.text) = false ∧ m.NoRecovery code verifyResult := by
  intro h
  have hv := (h (.subject (lit "expired.example") (lit "my.ence.do")) .peerFailedVerification 0
    (.inl rfl) (by decide) (by decide)).1
  have hx : curlTlsExpired .peerFailedVerification 0
      (some (Mismatch.subject (lit "expired.example") (lit "my.ence.do")).text) = true := by
    decide +kernel
  rw [hx] at hv
  exact Bool.noConfusion hv

end EncedoHem
