import EncedoHem.Crypto
import EncedoHem.Proofs.Accepted
import EncedoHem.Scripted

namespace EncedoHem
open Text Dialogue

/-- The members of a body that name the peer. -/
def peerMembers (ms : List (Bytes × Json)) : List (Bytes × Json) :=
  ms.filter fun m => m.1 = lit "ext_kid" || m.1 = lit "pubkey"

/-- One peer, in the way `ehem_key_derive` takes it. -/
structure DerivePeer (p : Peer) : Prop where
  one : p.extKid.isSome ≠ Api.havePub p.pubkey
  hex : p.extKid.all isKidHex = true
  short : Api.havePub p.pubkey = true → p.pubkey.len ≤ keymgmtPeerPubkeyMax

/-- One peer, in the way `ehem_ecdh` takes it. -/
structure EcdhPeer (p : Peer) : Prop where
  one : ¬(p.extKid.isSome ∧ p.havePub)
  given : p.given
  hex : p.extKid.all isKidHex = true
  short : p.havePub = true → p.pubkey.isNull = false ∧ 1 ≤ p.pubkey.len ∧ p.pubkey.len ≤ ecdhPubkeyMax

instance (p : Peer) : Decidable (DerivePeer p) :=
  decidable_of_iff (_ ∧ _ ∧ _) ⟨fun h => ⟨h.1, h.2.1, h.2.2⟩, fun h => ⟨h.one, h.hex, h.short⟩⟩

instance (p : Peer) : Decidable (EcdhPeer p) :=
  decidable_of_iff (_ ∧ _ ∧ _ ∧ _) ⟨fun h => ⟨h.1, h.2.1, h.2.2.1, h.2.2.2⟩,
    fun h => ⟨h.one, h.given, h.hex, h.short⟩⟩

/-- What both calls check of the id of a peer. -/
theorem not_hex_iff (kid : Option Bytes) : kid.any (¬isKidHex ·) = true ↔ ¬kid.all isKidHex = true := by
  cases kid <;> simp

section
variable {cfg : Config}

def deriveMembers (kid label type : Bytes) (p : Peer) (mode : Option Bytes) (descr : Buf) :
    List (Bytes × Json) :=
  strMember "kid" kid ++ strMember "label" label ++ strMember "type" type ++
    optStrMember "ext_kid" p.extKid ++ optB64Member "pubkey" p.pubkey ++ optStrMember "mode" mode ++
    optB64Member "descr" descr

def ecdhMembers (kid : Bytes) (p : Peer) (alg : Option Bytes) : List (Bytes × Json) :=
  strMember "kid" kid ++ p.members ++ optStrMember "alg" alg

/-- The arguments of `ehem_key_derive` other than the peer. -/
structure DeriveArgs where
  kid : Bytes
  label : Bytes
  type : Bytes
  mode : Option Bytes
  descr : Buf
  kid_hex : isKidHex kid = true
  label_ok : labelOk label = true
  type_ok : type ≠ [] ∧ type.length ≤ keymgmtTypeMax
  descr_fits : Api.descrOver descr = false

def DeriveArgs.call (cfg : Config) (a : DeriveArgs) (p : Peer) : Cmd Bytes :=
  (Api.keyDerive a.kid a.label a.type p.extKid p.pubkey a.mode a.descr : Api cfg Bytes).cmd

/-- The arguments of `ehem_ecdh` other than the peer. -/
structure EcdhArgs where
  kid : Bytes
  alg : Option Bytes
  kid_hex : isKidHex kid = true
  alg_given : alg ≠ some []

def EcdhArgs.call (cfg : Config) (a : EcdhArgs) (p : Peer) : Cmd Bytes :=
  (Api.ecdh a.kid p a.alg : Api cfg Bytes).cmd

theorem DeriveArgs.type_not_bad (a : DeriveArgs) : ¬(a.type = [] ∨ keymgmtTypeMax < a.type.length) := by
  have := a.type_ok
  simp [this]

theorem derive_refuses {a : DeriveArgs} {p : Peer} (h : ¬DerivePeer p) : Refuses (a.call cfg p) := by
  unfold DeriveArgs.call Api.keyDerive
  rw [if_neg (by simp [a.kid_hex]), if_neg (by simp [a.label_ok]), if_neg a.type_not_bad]
  split
  · exact refuses_ctxFail _
  rename_i hone
  split
  · exact refuses_ctxFail _
  rename_i hhex
  split
  · exact refuses_ctxFail _
  rename_i hshort
  rw [not_hex_iff, not_not] at hhex
  refine absurd ⟨hone, hhex, fun hp => ?_⟩ h
  by_contra hlen
  exact hshort ⟨hp, by omega⟩

theorem derive_accepts (ht : cfg.hasTransport = true) {a : DeriveArgs} {p : Peer} (h : DerivePeer p) :
    Accepts cfg (a.call cfg p) (lit "/api/" ++ lit "keymgmt/derive") keymgmtGenScope
      (deriveMembers a.kid a.label a.type p a.mode a.descr) := by
  have hshort : ¬(Api.havePub p.pubkey = true ∧ keymgmtPeerPubkeyMax < p.pubkey.len) := by
    rintro ⟨hp, hlen⟩
    have := h.short hp
    omega
  unfold DeriveArgs.call Api.keyDerive
  rw [if_neg (by simp [a.kid_hex]), if_neg (by simp [a.label_ok]), if_neg a.type_not_bad, if_neg h.one,
    if_neg (by simp only [not_hex_iff, h.hex, not_true_eq_false, not_false_eq_true]), if_neg hshort,
    if_neg (by simp [a.descr_fits])]
  exact accepts_json ht _ _ _ _

/-- The check of the peer's arguments passes, or refuses them. -/
theorem checkPeer_cases (cfg : Config) (what : Bytes) (p : Peer) :
    (EcdhPeer p ∧ (Api.checkPeerArgs what p false : Api cfg Unit) = pure ()) ∨
    (¬EcdhPeer p ∧ ∃ why, (Api.checkPeerArgs what p false : Api cfg Unit) = Api.refuse what why) := by
  unfold Api.checkPeerArgs
  split
  · rename_i h
    exact .inr ⟨fun hp => hp.one h, _, rfl⟩
  rename_i hone
  split
  · rename_i h
    exact .inr ⟨fun hp => h.1 hp.given, _, rfl⟩
  rename_i hgiven
  split
  · rename_i h
    exact .inr ⟨fun hp => (not_hex_iff _).mp h hp.hex, _, rfl⟩
  rename_i hhex
  split
  · rename_i h
    refine .inr ⟨fun hp => ?_, _, rfl⟩
    obtain ⟨hnull, hlow, hhigh⟩ := hp.short h.1
    rcases h.2 with h2 | h2 | h2
    · simp [hnull] at h2
    · omega
    · omega
  rename_i hshort
  rw [not_hex_iff, not_not] at hhex
  refine .inl ⟨⟨hone, by simpa using hgiven, hhex, fun hp => ?_⟩, rfl⟩
  have hall : ¬(p.pubkey.isNull = true ∨ p.pubkey.len < 1 ∨ ecdhPubkeyMax < p.pubkey.len) :=
    fun h => hshort ⟨hp, h⟩
  simp only [not_or, Bool.not_eq_true, not_lt] at hall
  exact hall

theorem ecdh_refuses {a : EcdhArgs} {p : Peer} (h : ¬EcdhPeer p) : Refuses (a.call cfg p) := by
  rcases checkPeer_cases cfg (lit "crypto/ecdh") p with ⟨hp, -⟩ | ⟨-, why, hcheck⟩
  · exact absurd hp h
  unfold EcdhArgs.call Api.ecdh Api.checkKid
  simp only [hcheck, if_pos a.kid_hex, Program.cmd_bind, Program.cmd_pure, Cmd.pure_bind]
  exact refuses_check _ _

theorem ecdh_accepts (ht : cfg.hasTransport = true) {a : EcdhArgs} {p : Peer} (h : EcdhPeer p) :
    Accepts cfg (a.call cfg p) (lit "/api/" ++ lit "crypto/ecdh") (useScope a.kid)
      (ecdhMembers a.kid p a.alg) := by
  rcases checkPeer_cases cfg (lit "crypto/ecdh") p with ⟨-, hcheck⟩ | ⟨hp, -⟩
  · unfold EcdhArgs.call Api.ecdh Api.checkKid
    simp only [hcheck, if_pos a.kid_hex, if_neg a.alg_given]
    exact accepts_json ht _ _ _ _
  · exact absurd h hp

end

/-- One rule for the peer: both calls dispatch with the same peer in their bodies, or both
refuse. -/
def OneRule (cfg : Config) (a : DeriveArgs) (b : EcdhArgs) (p : Peer) : Prop :=
  (∃ ms ms', Accepts cfg (a.call cfg p) (lit "/api/" ++ lit "keymgmt/derive") keymgmtGenScope ms ∧
    Accepts cfg (b.call cfg p) (lit "/api/" ++ lit "crypto/ecdh") (useScope b.kid) ms' ∧
    peerMembers ms = peerMembers ms') ∨
  (Refuses (a.call cfg p) ∧ Refuses (b.call cfg p))

/-- No call both accepts and refuses its arguments. -/
theorem Accepts.not_refuses {cfg : Config} {α : Type} {x : Cmd α} {path scope : Bytes}
    {ms : List (Bytes × Json)} (h : Accepts cfg x path scope ms) : ¬Refuses x := by
  intro hr
  let e : TokenEntry := ⟨scope, [], 0⟩
  let s : Ctx := { Ctx.initial with auth := some ⟨none, 0, false, none, false, [e]⟩ }
  have hfind : s.auth.bind (·.cacheFind scope) = some e := by simp [s, e, Auth.cacheFind]
  have hrun := script_runs x s 0 []
  obtain ⟨hes, -⟩ := hr s _ _ _ hrun
  have hsent := h s e hfind _ _ _ hrun
  rw [hes] at hsent
  obtain ⟨ans, hmem⟩ := hsent (by simp [Granted]) (by simp [Unexpired])
  simp at hmem

theorem peerMembers_optStr (key : String) (v : Option Bytes)
    (h : lit key ≠ lit "ext_kid" ∧ lit key ≠ lit "pubkey") : peerMembers (optStrMember key v) = [] := by
  cases v with
  | none => rfl
  | some b => simp [peerMembers, optStrMember, strMember, h]

/-- Both bodies name the peer alike. -/
theorem peerMembers_same (a : DeriveArgs) (b : EcdhArgs) (p : Peer) :
    peerMembers (deriveMembers a.kid a.label a.type p a.mode a.descr) =
      peerMembers (ecdhMembers b.kid p b.alg) := by
  have hkid : lit "kid" ≠ lit "ext_kid" ∧ lit "kid" ≠ lit "pubkey" := by decide
  have hlabel : lit "label" ≠ lit "ext_kid" ∧ lit "label" ≠ lit "pubkey" := by decide
  have htype : lit "type" ≠ lit "ext_kid" ∧ lit "type" ≠ lit "pubkey" := by decide
  have hdescr : lit "descr" ≠ lit "ext_kid" ∧ lit "descr" ≠ lit "pubkey" := by decide
  have hmode := peerMembers_optStr "mode" a.mode (by decide)
  have halg := peerMembers_optStr "alg" b.alg (by decide)
  unfold peerMembers at hmode halg
  unfold peerMembers deriveMembers ecdhMembers Peer.members optB64Member b64Member strMember
  simp only [List.filter_append, hmode, halg]
  by_cases h : a.descr.isNull = true ∨ a.descr.len = 0
  · simp [h, hkid, hlabel, htype]
  · simp [h, hkid, hlabel, htype, hdescr]

/-- The peer's key is given by its pointer if and only if it is by its length, unless there
is no valid id of a key of the device. -/
def Aligned (p : Peer) : Prop :=
  p.extKid.any isKidHex = true → (p.pubkey.isNull = true ↔ p.pubkey.len = 0)

/-- With an id, nothing may look like a key; `ehem_key_derive` looks for a pointer and a length. -/
theorem derivePeer_kid (kid : Bytes) (pub : Buf) : DerivePeer ⟨some kid, pub⟩ ↔
    isKidHex kid = true ∧ (pub.isNull = true ∨ pub.len = 0) := by
  have hpub : Api.havePub pub = false ↔ pub.isNull = true ∨ pub.len = 0 := by
    cases hn : pub.isNull <;> simp [Api.havePub, hn]
  rw [← hpub]
  constructor
  · intro h
    exact ⟨by simpa using h.hex, by simpa using h.one⟩
  · intro ⟨hkid, hno⟩
    exact ⟨by simp [hno], by simpa using hkid, fun h => by simp [hno] at h⟩

/-- `ehem_ecdh` looks for either. -/
theorem ecdhPeer_kid (kid : Bytes) (pub : Buf) : EcdhPeer ⟨some kid, pub⟩ ↔
    isKidHex kid = true ∧ pub.isNull = true ∧ pub.len = 0 := by
  have hpub : (Peer.mk (some kid) pub).havePub = false ↔ pub.isNull = true ∧ pub.len = 0 := by
    cases hn : pub.isNull <;> simp [Peer.havePub, hn]
  rw [← hpub]
  constructor
  · intro h
    exact ⟨by simpa using h.hex, by simpa using h.one⟩
  · intro ⟨hkid, hno⟩
    exact ⟨by simp [hno], by simp [Peer.given], by simpa using hkid, fun h => by simp [hno] at h⟩

/-- Without an id both want a key of 1 to 67 bytes. -/
theorem peers_of_pubkey (pub : Buf) : DerivePeer ⟨none, pub⟩ ↔ EcdhPeer ⟨none, pub⟩ := by
  constructor
  · intro h
    have hpub : Api.havePub pub = true := by
      have := h.one
      simpa using this
    have hshort := h.short hpub
    obtain ⟨hnull, hlen⟩ : pub.isNull = false ∧ 0 < pub.len := by simpa [Api.havePub] using hpub
    refine ⟨by simp, by simp [Peer.given, Peer.havePub, hnull], by simp, fun _ => ⟨hnull, hlen, hshort⟩⟩
  · intro h
    have hpub : (Peer.mk none pub).havePub = true := by simpa [Peer.given] using h.given
    obtain ⟨hnull, hlow, hhigh⟩ := h.short hpub
    dsimp only at hnull hlow hhigh
    have hhave : Api.havePub pub = true := by
      simp [Api.havePub, hnull]
      omega
    exact ⟨by simp [hhave], by simp, fun _ => hhigh⟩

theorem aligned_iff (p : Peer) : (DerivePeer p ↔ EcdhPeer p) ↔ Aligned p := by
  obtain ⟨kid, pub⟩ := p
  cases kid with
  | none => simp [peers_of_pubkey, Aligned]
  | some kid =>
    rw [derivePeer_kid, ecdhPeer_kid]
    unfold Aligned
    cases hk : isKidHex kid <;> cases hn : pub.isNull <;> simp [hk]

/-- A peer that only `ehem_key_derive` takes is no peer for both. -/
theorem not_oneRule {cfg : Config} (ht : cfg.hasTransport = true) (a : DeriveArgs) (b : EcdhArgs) {p : Peer}
    (hd : DerivePeer p) (he : ¬EcdhPeer p) : ¬OneRule cfg a b p := by
  rintro (⟨ms, ms', -, hacc, -⟩ | ⟨href, -⟩)
  · exact hacc.not_refuses (ecdh_refuses he)
  · exact (derive_accepts ht hd).not_refuses href

/-- The two calls go by one rule for exactly the peers whose pointer and length agree. -/
theorem one_peer_rule_iff (cfg : Config) (ht : cfg.hasTransport = true) (a : DeriveArgs) (b : EcdhArgs)
    (p : Peer) : OneRule cfg a b p ↔ Aligned p := by
  rw [← aligned_iff]
  by_cases hd : DerivePeer p
  · by_cases he : EcdhPeer p
    · have hone : OneRule cfg a b p :=
        .inl ⟨_, _, derive_accepts ht hd, ecdh_accepts ht he, peerMembers_same a b p⟩
      simp [hone, hd, he]
    · simp [not_oneRule ht a b hd he, hd, he]
  · by_cases he : EcdhPeer p
    · simp only [hd, he, false_iff, not_true_eq_false, iff_false]
      rintro (⟨ms, ms', hacc, -⟩ | ⟨-, href⟩)
      · exact hacc.not_refuses (derive_refuses hd)
      · exact (ecdh_accepts ht he).not_refuses href
    · have hone : OneRule cfg a b p := .inr ⟨derive_refuses hd, ecdh_refuses he⟩
      simp [hone, hd, he]

def sampleDerive : DeriveArgs :=
  ⟨sampleKid, lit "k", lit "AES256", none, .null 0, by decide, by decide, by decide, by decide⟩

def sampleEcdh : EcdhArgs := ⟨sampleKid, none, by decide, by decide⟩

theorem key_or_id_is_one_rule : OneRule .standard sampleDerive sampleEcdh ⟨some sampleKid, .null 0⟩ :=
  (one_peer_rule_iff .standard rfl sampleDerive sampleEcdh _).mpr (by simp [Aligned, Buf.isNull, Buf.len])

/-- An id beside a buffer of no bytes: one call sends its request, the other refuses. -/
theorem id_and_empty_key_divides : ¬OneRule .standard sampleDerive sampleEcdh ⟨some sampleKid, .data []⟩ :=
  not_oneRule rfl _ _ ((derivePeer_kid _ _).mpr (by decide)) fun h => by
    have := (ecdhPeer_kid _ _).mp h
    simp [Buf.isNull] at this

end EncedoHem
