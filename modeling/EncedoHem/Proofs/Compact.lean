import EncedoHem.Ejwt
import EncedoHem.Proofs.Expiry

namespace EncedoHem
open Text Dialogue

/-- The tag is computed by `hmac`, whatever is signed under whatever key. -/
def Computes (hmac : Bytes → Bytes → Bytes) (es : List Event) : Prop :=
  ∀ key msg (a : Except Rc Bytes), (⟨.hmacSha256 key msg, a⟩ : Event) ∈ es → a = .ok (hmac key msg)

/-- The segments of a signed token. -/
structure Compact (hmac : Bytes → Bytes → Bytes) (header payload key h p t : Bytes) : Prop where
  undotted : (46 : UInt8) ∉ h ∧ (46 : UInt8) ∉ p ∧ (46 : UInt8) ∉ t
  header : ∀ room, header.length ≤ room → b64urlDecode h room = some header
  payload : ∀ room, payload.length ≤ room → b64urlDecode p room = some payload
  tag : b64urlEncode (hmac key (h ++ lit "." ++ p)) 44 = some t
  tagLength : t.length = 43

def compactToken (h p t : Bytes) : Bytes := h ++ lit "." ++ p ++ lit "." ++ t

/-- The block holds the token and its closing zero, and nothing else. -/
structure HoldsToken (block : Block UInt8) (h p t : Bytes) : Prop where
  cells : block = (compactToken h p t ++ [0]).map some
  size : block.length = h.length + p.length + 45 + 1

/-- The readers of a token find the payload again. -/
structure ReadBack (jwt payload p : Bytes) : Prop where
  segment : middleSegment jwt = some p
  decoded : b64urlDecode p 1024 = some payload
  claims : ∀ key s, wp (peekClaim jwt key) (fun es r _ => Granted es →
    r = .ok ((jsonParse payload).bind (·.getInt64 key))) s

theorem encodedLen_url (x : Bytes) : (b64Chars .url false x).length = b64urlEncodedLen x.length :=
  (written .url false x).length.1

/-- The fixed segment has room for exactly the headers of at most 191 bytes. -/
theorem header_fits (header : Bytes) : b64urlEncode header 256 =
    if header.length ≤ 191 then some (b64Chars .url false header) else none := by
  have hlen : 256 < b64urlEncodedLen header.length + 1 ↔ ¬header.length ≤ 191 := by
    unfold b64urlEncodedLen
    dsimp only
    split <;> omega
  unfold b64urlEncode b64Encode
  simp only [Bool.false_eq_true, ↓reduceIte, hlen]
  by_cases h : header.length ≤ 191 <;> simp [h]

theorem payload_fits (payload : Bytes) : b64urlEncode payload (b64urlEncodedLen payload.length + 1) =
    some (b64Chars .url false payload) := by
  simp [b64urlEncode, b64Encode]

/-- Both segments fit where they are put, and what is signed is what has been put there. -/
theorem joinSegments_filled (h p : Bytes) {n : Nat} (hn : (h ++ lit "." ++ p).length ≤ n) :
    joinSegments (Block.fresh n) h p = some (Block.filled n (h ++ lit "." ++ p)) ∧
      (Block.filled n (h ++ lit "." ++ p)).read (h.length + 1 + p.length) = some (h ++ lit "." ++ p) := by
  have hdot : (lit ".").length = 1 := rfl
  have hlen : (h ++ lit "." ++ p).length = h.length + 1 + p.length := by
    simp only [List.length_append, hdot]
  have hh := Block.write_filled (n := n) (b := []) h (by simp; omega)
  have hd := Block.write_filled (n := n) (b := h) (lit ".") (by rw [hdot]; omega)
  have hp := Block.write_filled (n := n) (b := h ++ lit ".") p (by simp [hdot]; omega)
  simp only [Block.filled_nil, List.length_nil, List.nil_append, List.length_append, hdot] at hh hd hp
  constructor
  · unfold joinSegments
    simp only [hh, hd, hp, Option.bind_eq_bind, Option.bind_some]
  · rw [← hlen]
    exact Block.read_filled hn

/-- The tag goes where the signed part ends. -/
theorem closeToken_filled (input tag : Bytes) {n : Nat} (hn : input.length + 1 + tag.length + 1 ≤ n) :
    closeToken (Block.filled n input) input.length tag = some (Block.filled n (input ++ lit "." ++ (tag ++ [0]))) := by
  have hdot : (lit ".").length = 1 := rfl
  have hd := Block.write_filled (n := n) (b := input) (lit ".") (by rw [hdot]; omega)
  have ht := Block.write_filled (n := n) (b := input ++ lit ".") (tag ++ [0]) (by simp [hdot]; omega)
  simp only [List.length_append, hdot] at ht
  unfold closeToken
  simp only [hd, ht, Option.bind_eq_bind, Option.bind_some]

theorem length_tag {mac : Bytes} (h : mac.length = 32) : (b64Chars .url false mac).length = 43 := by
  rw [encodedLen_url, h]
  rfl

theorem wp_needQuiet {s : Ctx} {Q : List Event → Except Rc Unit → Ctx → Prop}
    (hok : Q [⟨.alloc, true⟩] (.ok ()) s) (herr : Q [⟨.alloc, false⟩] (.error .nomem) s) : wp needQuiet Q s := by
  unfold needQuiet
  rw [wp_bind, wp_alloc]
  intro ok
  cases ok with
  | true => simpa using hok
  | false => simpa using herr

/-- What a signed token is read as, once its segments are known. -/
theorem readBack (header payload t : Bytes) (hp : (b64Chars .url false payload).length ≤ 1024) :
    ReadBack (compactToken (b64Chars .url false header) (b64Chars .url false payload) t) payload
      (b64Chars .url false payload) := by
  have hshort : payload.length ≤ 1024 := by
    have hlen := encodedLen_url payload
    unfold b64urlEncodedLen at hlen
    dsimp only at hlen
    split at hlen <;> omega
  have hseg : middleSegment (compactToken (b64Chars .url false header) (b64Chars .url false payload) t) =
      some (b64Chars .url false payload) := by
    have hdotted := middleSegment_dotted (no_dot header) (no_dot payload) t
    simpa [compactToken, lit] using hdotted
  have hdec : b64urlDecode (b64Chars .url false payload) 1024 = some payload :=
    b64Decode_written (written .url false payload) hshort
  have hclaim : ∀ key, claimOf (compactToken (b64Chars .url false header) (b64Chars .url false payload) t) key =
      (jsonParse payload).bind (·.getInt64 key) := by
    intro key
    unfold claimOf
    rw [hseg, Option.bind_some]
    split
    · rename_i hout
      have hzero : (b64Chars .url false payload).length = 0 := by omega
      have hnil : payload = [] := by
        rw [List.length_eq_zero_iff.mp hzero] at hdec
        exact (Option.some.inj hdec).symm
      rw [hnil]
      rfl
    · rw [hdec, Option.bind_some]
  refine ⟨hseg, hdec, fun key s => ?_⟩
  rw [← hclaim key]
  refine wp_peekClaim (fun _ => rfl) fun ok hg => ?_
  rw [granted_alloc hg]
  rfl

theorem tag_fits {mac : Bytes} (h : mac.length = 32) : b64urlEncode mac 44 = some (b64Chars .url false mac) := by
  simp [b64urlEncode, b64Encode, h, b64urlEncodedLen]

/-- The size of the block that is allocated for a token. -/
def tokenSize (header payload : Bytes) : Nat :=
  b64urlEncodedLen header.length + 1 + b64urlEncodedLen payload.length + 1 + b64urlEncodedLen sha256Size + 1

theorem needQuiet_congr {α : Type} {f g : Cmd α} (h : f = g) :
    (needQuiet >>= fun _ => f) = needQuiet >>= fun _ => g := by rw [h]

/-- Over its block the builder does what it does over texts: the text that the rest of the code goes
on with is what the block holds, and nothing is ever written beyond the block. -/
theorem signCompactAt_eq (header payload key : Bytes) : signCompactAt header payload key =
    signCompact header payload key >>= fun t => pure (some (Block.filled (tokenSize header payload) (t ++ [0]))) := by
  unfold signCompactAt signCompact
  rw [header_fits, payload_fits, Cmd.bind_assoc]
  refine needQuiet_congr ?_
  by_cases hfit : header.length ≤ 191
  · rw [if_pos hfit]
    dsimp only
    rw [Cmd.bind_assoc]
    refine needQuiet_congr ?_
    have hsig : b64urlEncodedLen sha256Size = 43 := rfl
    have hdot : (lit ".").length = 1 := rfl
    have hlen : (b64Chars .url false header ++ lit "." ++ b64Chars .url false payload).length =
        (b64Chars .url false header).length + 1 + (b64Chars .url false payload).length := by
      simp only [List.length_append, hdot]
    obtain ⟨hjoin, hread⟩ := joinSegments_filled (b64Chars .url false header) (b64Chars .url false payload)
      (n := tokenSize header payload) (by
        rw [hlen, encodedLen_url, encodedLen_url]
        unfold tokenSize
        omega)
    have hsize : (b64Chars .url false header).length + 1 + (b64Chars .url false payload).length + 1 +
        b64urlEncodedLen sha256Size + 1 = tokenSize header payload := by
      rw [encodedLen_url, encodedLen_url]
      rfl
    rw [hsize, hjoin, Option.bind_some, hread, hsig]
    dsimp only
    rw [Cmd.bind_assoc]
    congr 1
    funext mac
    rw [Cmd.bind_assoc]
    congr 1
    funext mac
    cases henc : b64urlEncode mac (43 + 1) with
    | none => rfl
    | some t =>
      have ht : t.length + 1 ≤ 44 := by
        unfold b64urlEncode b64Encode at henc
        simp only [Bool.false_eq_true, ↓reduceIte] at henc
        split at henc
        · exact nomatch henc
        · rw [← Option.some.inj henc, encodedLen_url]
          omega
      have hclose := closeToken_filled (b64Chars .url false header ++ lit "." ++ b64Chars .url false payload) t
        (n := tokenSize header payload) (by
          rw [hlen]
          omega)
      rw [hlen] at hclose
      dsimp only
      rw [hclose, Cmd.pure_bind]
      simp only [List.append_assoc]
  · rw [if_neg hfit]
    rfl

/-- What signing comes to: for a header that does not fit nothing, and else the token. -/
def Signs (hmac : Bytes → Bytes → Bytes) (header payload key : Bytes) (es : List Event)
    (r : Except Rc Bytes) : Prop :=
  (191 < header.length → ∃ rc, r = .error rc) ∧
    (header.length ≤ 191 → Granted es → Computes hmac es → ∃ t,
      r = .ok (compactToken (b64Chars .url false header) (b64Chars .url false payload) t) ∧
      Compact hmac header payload key (b64Chars .url false header) (b64Chars .url false payload) t)

theorem wp_signCompact {hmac : Bytes → Bytes → Bytes} (h32 : ∀ key msg, (hmac key msg).length = 32)
    (header payload key : Bytes) (s : Ctx) :
    wp (signCompact header payload key) (fun es r _ => Signs hmac header payload key es r) s := by
  have hdenied : ∀ (pre : List Event) (rc : Rc), (⟨.alloc, false⟩ : Event) ∈ pre →
      Signs hmac header payload key pre (.error rc) := by
    intro pre rc hmem
    exact ⟨fun _ => ⟨_, rfl⟩, fun _ hg => absurd hmem hg⟩
  unfold signCompact
  rw [wp_bind]
  refine wp_needQuiet ?_ (hdenied _ _ List.mem_cons_self)
  rw [header_fits, payload_fits]
  by_cases hfit : header.length ≤ 191
  · rw [if_pos hfit]
    dsimp only
    rw [wp_bind]
    refine wp_needQuiet ?_ (hdenied _ _ (by simp))
    dsimp only
    rw [wp_bind, wp_hmacSha256]
    intro mac
    -- the environment's answer is the tag, as far as it computes
    have htag : ∀ es : List Event, Computes hmac ([⟨.alloc, true⟩] ++ ([⟨.alloc, true⟩] ++ ([⟨.hmacSha256 key
        (b64Chars .url false header ++ lit "." ++ b64Chars .url false payload), mac⟩] ++ es))) →
        mac = .ok (hmac key (b64Chars .url false header ++ lit "." ++ b64Chars .url false payload)) := by
      intro es hc
      exact hc _ _ mac (by simp)
    cases mac with
    | error rc =>
      dsimp only [liftRc]
      rw [throwRc_bind, wp_throwRc]
      exact ⟨fun _ => ⟨_, rfl⟩, fun _ _ hc => nomatch htag [] hc⟩
    | ok mac =>
      dsimp only [liftRc]
      rw [Cmd.pure_bind]
      cases henc : b64urlEncode mac 44 with
      | none =>
        dsimp only
        rw [wp_throwRc]
        refine ⟨fun _ => ⟨_, rfl⟩, fun _ _ hc => ?_⟩
        have hmac := Except.ok.inj (htag [] hc)
        rw [tag_fits (hmac ▸ h32 _ _)] at henc
        exact nomatch henc
      | some t =>
        dsimp only
        rw [wp_pure]
        refine ⟨fun h => absurd hfit (by omega), fun _ _ hc => ⟨t, rfl, ?_⟩⟩
        have hmac := Except.ok.inj (htag [] hc)
        subst hmac
        have ht : t = b64Chars .url false _ := Option.some.inj (henc.symm.trans (tag_fits (h32 _ _)))
        refine ⟨⟨no_dot _, no_dot _, ht ▸ no_dot _⟩, ?_, ?_, henc, ht ▸ length_tag (h32 _ _)⟩
        · intro room hroom
          exact b64Decode_written (written .url false header) hroom
        · intro room hroom
          exact b64Decode_written (written .url false payload) hroom
  · rw [if_neg hfit]
    dsimp only
    rw [wp_throwRc]
    exact ⟨fun _ => ⟨_, rfl⟩, fun h => absurd h hfit⟩

/-- A token with a tag of 43 characters fills its block to the end. -/
theorem filled_token (header payload : Bytes) {t : Bytes} (ht : t.length = 43) :
    HoldsToken (Block.filled (tokenSize header payload)
      (compactToken (b64Chars .url false header) (b64Chars .url false payload) t ++ [0]))
      (b64Chars .url false header) (b64Chars .url false payload) t := by
  have hdot : (lit ".").length = 1 := rfl
  have hsig : b64urlEncodedLen sha256Size = 43 := rfl
  have hfull : (compactToken (b64Chars .url false header) (b64Chars .url false payload) t ++ [0]).length =
      tokenSize header payload := by
    simp only [compactToken, tokenSize, List.length_append, hdot, ht, hsig, List.length_singleton, encodedLen_url]
  refine ⟨Block.filled_full hfull, ?_⟩
  rw [Block.length_filled (by omega), encodedLen_url, encodedLen_url]
  unfold tokenSize
  omega

/-- A header of at most 191 bytes and any payload are signed into a token that fills its block, whose
segments decode to them, and which its readers split where the builder joined it; a longer header
yields no token. -/
theorem compact_token {hmac : Bytes → Bytes → Bytes} (h32 : ∀ key msg, (hmac key msg).length = 32)
    (header payload : Bytes) {key : Bytes} (hkey : key ≠ []) {s s' : Ctx} {es : List Event}
    {r : Except Rc (Option (Block UInt8))}
    (run : Runs (ejwtSign (some header) (some payload) (.data key)) s es r s') :
    (191 < header.length → ∃ rc, r = .error rc) ∧
    (header.length ≤ 191 → Granted es → Computes hmac es → ∃ h p t block, r = .ok (some block) ∧
      HoldsToken block h p t ∧ Compact hmac header payload key h p t ∧
      (p.length ≤ 1024 → ReadBack (compactToken h p t) payload p)) := by
  have hopen : ¬((Buf.data key).isNull = true ∨ (Buf.data key).len = 0) := by
    simpa [Buf.isNull, Buf.len] using hkey
  have hspec : wp (ejwtSign (some header) (some payload) (.data key)) (fun es r _ =>
      (191 < header.length → ∃ rc, r = .error rc) ∧
      (header.length ≤ 191 → Granted es → Computes hmac es → ∃ h p t block, r = .ok (some block) ∧
        HoldsToken block h p t ∧ Compact hmac header payload key h p t ∧
        (p.length ≤ 1024 → ReadBack (compactToken h p t) payload p))) s := by
    unfold ejwtSign
    dsimp only
    rw [if_neg hopen, signCompactAt_eq]
    refine wp_bind_of (wp_signCompact h32 header payload key s) ?_ ?_
    · intro es jwt s₁ h
      obtain ⟨hlong, hsigned⟩ := h
      rw [wp_pure, List.append_nil]
      refine ⟨(fun h => nomatch (hlong h).choose_spec), fun hfit hg hc => ?_⟩
      obtain ⟨t, hjwt, hcompact⟩ := hsigned hfit hg hc
      rw [Except.ok.inj hjwt]
      exact ⟨_, _, t, _, rfl, filled_token header payload hcompact.tagLength, hcompact, readBack header payload t⟩
    · intro es rc s₁ h
      obtain ⟨-, hsigned⟩ := h
      refine ⟨fun _ => ⟨rc, rfl⟩, fun hfit hg hc => ?_⟩
      obtain ⟨t, hjwt, -⟩ := hsigned hfit hg hc
      exact nomatch hjwt
  exact hspec es r s' run

/-- An object that is signed under the key `k`. -/
def sampleSigning : Cmd (Option (Block UInt8)) :=
  ejwtSign (some (lit "\x7b\x7d")) (some (lit "\x7b\"exp\":100\x7d")) (.data (lit "k"))

/-- HMAC-SHA256 as far as the sample goes. -/
def sampleHmac (key msg : Bytes) : Bytes :=
  if key = lit "k" ∧ msg = lit "e30.eyJleHAiOjEwMH0" then
    [130, 99, 108, 148, 7, 202, 130, 181, 230, 52, 1, 140, 133, 17, 143, 90, 153, 144, 165, 2, 59, 162,
      95, 157, 73, 144, 145, 131, 89, 51, 77, 123]
  else List.replicate 32 0

theorem length_sampleHmac (key msg : Bytes) : (sampleHmac key msg).length = 32 := by
  unfold sampleHmac
  split <;> rfl

/-- An environment that computes with it and grants all memory. -/
def signer : List Event → (i : Op) → Ans i
  | _, .hmacSha256 key msg => .ok (sampleHmac key msg)
  | h, op => scripted 5 [] h op

def sampleSigned : List Event × Except Rc (Option (Block UInt8)) × Ctx := (sampleSigning .initial).play signer []

theorem signer_answers {e : Event} (he : e ∈ sampleSigned.1) : ∃ h i, e = ⟨i, signer h i⟩ := by
  rcases play_answers he with hm | h
  · exact absurd hm List.not_mem_nil
  · exact h

theorem sample_token : ∃ h p t block, sampleSigned.2.1 = .ok (some block) ∧ HoldsToken block h p t ∧
    Compact sampleHmac (lit "\x7b\x7d") (lit "\x7b\"exp\":100\x7d") (lit "k") h p t ∧
    (p.length ≤ 1024 → ReadBack (compactToken h p t) (lit "\x7b\"exp\":100\x7d") p) := by
  have hgranted : Granted sampleSigned.1 := by
    intro he
    obtain ⟨h, i, heq⟩ := signer_answers he
    obtain ⟨rfl, hans⟩ := Event.mk.inj heq
    exact nomatch eq_of_heq hans
  have hcomputes : Computes sampleHmac sampleSigned.1 := by
    intro key msg a he
    obtain ⟨h, i, heq⟩ := signer_answers he
    obtain ⟨rfl, hans⟩ := Event.mk.inj heq
    exact eq_of_heq hans
  exact (compact_token length_sampleHmac _ _ (by decide) (run_of_play signer (sampleSigning .initial))).2
    (by decide) hgranted hcomputes

end EncedoHem
