import EncedoHem.Proofs.Codec
import EncedoHem.Proofs.JsonText
import EncedoHem.Proofs.KeyWalk
import EncedoHem.Proofs.Peers

namespace EncedoHem
open Text Dialogue

/-- What a caller supplies by a buffer. -/
def Buf.supplied (b : Buf) : Option Bytes := if b.isNull ∨ b.len = 0 then none else some b.bytes

@[simp] theorem Buf.supplied_nothing : (Buf.null 0).supplied = none := rfl

theorem Buf.supplied_data {b : Bytes} (h : b ≠ []) : (Buf.data b).supplied = some b :=
  if_neg (by simp [Buf.isNull, Buf.len, h])

/-- The member of that name among these. -/
def under (key : String) (ms : List (Bytes × Json)) : Option Json :=
  (ms.find? (·.1 = lit key)).map (·.2)

@[simp] theorem under_append (key : String) (ms ms' : List (Bytes × Json)) :
    under key (ms ++ ms') = (under key ms).or (under key ms') := by
  unfold under
  rw [List.find?_append]
  cases ms.find? (·.1 = lit key) <;> rfl

theorem strMember_eq (name : String) (v : Bytes) : strMember name v = optStrMember name (some v) := rfl

@[simp] theorem under_optStr (key name : String) (v : Option Bytes) :
    under key (optStrMember name v) = if lit name = lit key then v.map .str else none := by
  cases v with
  | none => simp [under, optStrMember]
  | some v =>
    by_cases h : lit name = lit key
    · simp [under, optStrMember, strMember, h]
    · simp [under, optStrMember, strMember, h]

theorem b64Member_eq (name : String) (b : Bytes) : b64Member name b = optStrMember name (some (b64Of b)) := rfl

theorem optB64Member_eq (name : String) (b : Buf) :
    optB64Member name b = optStrMember name (b.supplied.map b64Of) := by
  unfold optB64Member Buf.supplied
  split
  · rfl
  · rfl

theorem b64Of_written (b : Bytes) : Written .std true b (b64Of b) := by
  have henc : b64StdEncode b (b64StdEncodedLen b.length + 1) = some (b64Chars .std true b) :=
    if_neg (Nat.lt_irrefl _)
  unfold b64Of
  rw [henc]
  exact written .std true b

/-- Base64 brings back what was encoded. -/
theorem decode_b64Of (b : Bytes) : b64StdDecode (b64Of b) (b64Of b).length = some b := by
  have hw := b64Of_written b
  have hlen : (b64Of b).length = 4 * ((b.length + 2) / 3) := hw.length.1
  exact b64Decode_written hw (by omega)

/-- The writes to a device's keys, each with its arguments. -/
inductive KeyWrite where
  | create (p : KeyCreateParams)
  | update (kid label : Bytes) (descr : Buf)
  | imported (p : KeyImportParams)
  | derive (kid label type : Bytes) (p : Peer) (mode : Option Bytes) (descr : Buf)

namespace KeyWrite

abbrev Out : KeyWrite → Type
  | update .. => Unit
  | _ => Bytes

def call (cfg : Config) : (w : KeyWrite) → Cmd w.Out
  | create p => (Api.keyCreate p : Api cfg Bytes).cmd
  | update kid label descr => (Api.keyUpdate kid label descr : Api cfg Unit).cmd
  | imported p => (Api.keyImport p : Api cfg Bytes).cmd
  | derive kid label type p mode descr =>
    (Api.keyDerive kid label type p.extKid p.pubkey mode descr : Api cfg Bytes).cmd

def path : KeyWrite → Bytes
  | create _ => lit "/api/" ++ lit "keymgmt/create"
  | update .. => lit "/api/" ++ lit "keymgmt/update"
  | imported _ => lit "/api/" ++ lit "keymgmt/import"
  | derive .. => lit "/api/" ++ lit "keymgmt/derive"

def scope : KeyWrite → Bytes
  | create _ => keymgmtGenScope
  | update .. => keymgmtUpdScope
  | imported _ => keymgmtImpScope
  | derive .. => keymgmtGenScope

def kid : KeyWrite → Option Bytes
  | update kid .. => some kid
  | derive kid .. => some kid
  | _ => none

def label : KeyWrite → Bytes
  | create p => p.label
  | update _ label _ => label
  | imported p => p.label
  | derive _ label .. => label

def type : KeyWrite → Option Bytes
  | create p => some p.type
  | update .. => none
  | imported p => some p.type
  | derive _ _ type .. => some type

def extKid : KeyWrite → Option Bytes
  | derive _ _ _ p _ _ => p.extKid
  | _ => none

def pubkey : KeyWrite → Buf
  | imported p => .data p.pubkey
  | derive _ _ _ p _ _ => p.pubkey
  | _ => .null 0

def mode : KeyWrite → Option Bytes
  | create p => p.mode
  | update .. => none
  | imported p => p.mode
  | derive _ _ _ _ mode _ => mode

def descr : KeyWrite → Buf
  | create p => p.descr
  | update _ _ descr => descr
  | imported p => p.descr
  | derive _ _ _ _ _ descr => descr

attribute [simp] kid label type extKid pubkey mode descr

/-- The members of the body, in the order they are printed in. -/
def members : KeyWrite → List (Bytes × Json)
  | create p => strMember "type" p.type ++ strMember "label" p.label ++
      optStrMember "mode" p.mode ++ optB64Member "descr" p.descr
  | update kid label descr => strMember "kid" kid ++ strMember "label" label ++
      optB64Member "descr" descr
  | imported p => strMember "type" p.type ++ strMember "label" p.label ++
      b64Member "pubkey" p.pubkey ++ optStrMember "mode" p.mode ++ optB64Member "descr" p.descr
  | derive kid label type p mode descr => deriveMembers kid label type p mode descr

/-- Type and mode are C strings. -/
def CStrings (w : KeyWrite) : Prop := ∀ v, w.type = some v ∨ w.mode = some v → ∀ c ∈ v, c ≠ 0

/-- Every id of a key is one, and the label is a label. -/
structure Named (w : KeyWrite) : Prop where
  kids : ∀ kid, w.kid = some kid ∨ w.extKid = some kid → isKidHex kid = true
  label : labelOk w.label = true

/-- The checks that only one of the calls makes. -/
def Further : KeyWrite → Prop
  | imported p => p.pubkey ≠ []
  | derive _ _ type p _ _ => (type ≠ [] ∧ type.length ≤ keymgmtTypeMax) ∧ DerivePeer p
  | _ => True

/-- The arguments are within the bounds that the four calls share. -/
structure InBounds (w : KeyWrite) : Prop extends Named w where
  descr : w.descr.len ≤ keymgmtDescrMax

end KeyWrite

/-- A member is there if and only if a value was supplied, and decodes to it. -/
def Carries (decode : Bytes → Option Bytes) (root : Json) (key : String) : Option Bytes → Prop
  | none => root.has (lit key) = false
  | some v => ∃ text, root.get (lit key) = some (.str text) ∧ decode text = some v

def fromB64 (text : Bytes) : Option Bytes := b64StdDecode text text.length

/-- The names that the four calls use in their bodies. -/
def bodyNames : List Bytes := ["kid", "label", "type", "ext_kid", "pubkey", "mode", "descr"].map lit

/-- The object says what the caller supplied and nothing else. -/
structure Spells (root : Json) (w : KeyWrite) : Prop where
  object : root.isObject = true
  kid : Carries some root "kid" w.kid
  label : Carries some root "label" (some w.label)
  type : Carries some root "type" w.type
  extKid : Carries some root "ext_kid" w.extKid
  pubkey : Carries fromB64 root "pubkey" w.pubkey.supplied
  mode : Carries some root "mode" w.mode
  descr : Carries fromB64 root "descr" w.descr.supplied
  only : ∀ key, root.has key = true → key ∈ bodyNames

def SpelledBy (body : Bytes) (w : KeyWrite) : Prop := ∃ root, jsonParse body = some root ∧ Spells root w

/-- The call turns its arguments down: nothing is asked for, and nothing of the context changes
but the error detail. -/
def Declines {α : Type} (x : Cmd α) : Prop := ∀ s,
  wp x (fun es r s' => es = [] ∧ r = .error .arg ∧ s' = s.setError s'.lastError) s

/-- The write checks its arguments before it does anything, and then says them all. -/
structure KeyWrite.Kept (cfg : Config) (w : KeyWrite) : Prop where
  declined : ¬w.InBounds → Declines (w.call cfg)
  told : w.InBounds → ∀ s, wp (w.call cfg) (fun es _ _ => ∀ scope req a,
    (⟨.send (some scope) req, a⟩ : Event) ∈ es → ∃ body, req.body = some body ∧ SpelledBy body w) s
  sent : w.InBounds → w.Further →
    ∃ ms, Accepts cfg (w.call cfg) w.path w.scope ms ∧ SpelledBy (printValue (.obj ms)) w

theorem carries_str {ms : List (Bytes × Json)} {key : String} {v : Option Bytes}
    (h : under key ms = v.map .str) : Carries some (.obj ms) key v := by
  cases v with
  | none =>
    show (under key ms).isSome = false
    rw [h]
    rfl
  | some v => exact ⟨v, h, rfl⟩

theorem carries_b64 {ms : List (Bytes × Json)} {key : String} {v : Option Bytes}
    (h : under key ms = (v.map b64Of).map .str) : Carries fromB64 (.obj ms) key v := by
  cases v with
  | none =>
    show (under key ms).isSome = false
    rw [h]
    rfl
  | some v => exact ⟨b64Of v, h, decode_b64Of v⟩

/-- Members under the names of a body, each with a C string. -/
def Fielded (ms : List (Bytes × Json)) : Prop :=
  ∀ m ∈ ms, m.1 ∈ bodyNames ∧ ∃ v : Bytes, m.2 = .str v ∧ ∀ c ∈ v, c ≠ 0

theorem Fielded.append {ms ms' : List (Bytes × Json)} (h : Fielded ms) (h' : Fielded ms') :
    Fielded (ms ++ ms') := by
  intro m hm
  rcases List.mem_append.mp hm with hm | hm
  · exact h m hm
  · exact h' m hm

theorem Fielded.optStr {key : String} {v : Option Bytes} (hk : lit key ∈ bodyNames)
    (hv : ∀ t, v = some t → ∀ c ∈ t, c ≠ 0) : Fielded (optStrMember key v) := by
  cases v with
  | none => exact fun m hm => absurd hm List.not_mem_nil
  | some v =>
    intro m hm
    obtain rfl := List.mem_singleton.mp hm
    exact ⟨hk, v, rfl, hv v rfl⟩

theorem Fielded.str {key : String} {v : Bytes} (hk : lit key ∈ bodyNames) (hv : ∀ c ∈ v, c ≠ 0) :
    Fielded (strMember key v) := by
  refine Fielded.optStr (v := some v) hk fun t ht => ?_
  cases ht
  exact hv

theorem Fielded.b64 {key : String} {b : Bytes} (hk : lit key ∈ bodyNames) : Fielded (b64Member key b) :=
  .str hk (b64Of_written b).no_zero

theorem Fielded.optB64 {key : String} {b : Buf} (hk : lit key ∈ bodyNames) : Fielded (optB64Member key b) := by
  unfold optB64Member
  split
  · exact fun m hm => absurd hm List.not_mem_nil
  · exact .b64 hk

theorem Fielded.strings {ms : List (Bytes × Json)} (h : Fielded ms) : Strings ms := by
  have hnames : ∀ name ∈ bodyNames, ∀ c ∈ name, c ≠ 0 := by decide +kernel
  intro m hm
  obtain ⟨hname, hv⟩ := h m hm
  exact ⟨hnames _ hname, hv⟩

theorem Fielded.only {ms : List (Bytes × Json)} (h : Fielded ms) {key : Bytes}
    (hk : (Json.obj ms).has key = true) : key ∈ bodyNames := by
  have hsome : ((ms.find? (·.1 = key)).map (·.2)).isSome = true := hk
  rw [Option.isSome_map] at hsome
  obtain ⟨m, hm⟩ := Option.isSome_iff_exists.mp hsome
  have hkey : m.1 = key := by simpa using List.find?_some hm
  rw [← hkey]
  exact (h m (List.mem_of_find?_eq_some hm)).1

theorem isKidHex_no_zero {kid : Bytes} (h : isKidHex kid = true) : ∀ c ∈ kid, c ≠ 0 := by
  unfold isKidHex at h
  rw [Bool.and_eq_true] at h
  intro c hc hz
  have := List.all_eq_true.mp h.2 c hc
  rw [hz] at this
  exact absurd this (by decide)

theorem labelOk_no_zero {label : Bytes} (h : labelOk label = true) : ∀ c ∈ label, c ≠ 0 := by
  unfold labelOk at h
  rw [Bool.and_eq_true] at h
  intro c hc hz
  have := List.all_eq_true.mp h.2 c hc
  rw [hz] at this
  exact absurd this (by decide)

namespace KeyWrite

theorem fielded {w : KeyWrite} (hn : w.Named) (hs : w.CStrings) : Fielded w.members := by
  have hlabel := labelOk_no_zero hn.label
  have hmode : ∀ t, w.mode = some t → ∀ c ∈ t, c ≠ 0 := fun t ht => hs t (.inr ht)
  cases w with
  | create p =>
    exact .append (.append (.append (.str (by decide) (hs _ (.inl rfl))) (.str (by decide) hlabel))
      (.optStr (by decide) hmode)) (.optB64 (by decide))
  | update kid label descr =>
    have hkid := isKidHex_no_zero (hn.kids kid (.inl rfl))
    exact .append (.append (.str (by decide) hkid) (.str (by decide) hlabel)) (.optB64 (by decide))
  | imported p =>
    exact .append (.append (.append (.append (.str (by decide) (hs _ (.inl rfl))) (.str (by decide) hlabel))
      (.b64 (by decide))) (.optStr (by decide) hmode)) (.optB64 (by decide))
  | derive kid label type p mode descr =>
    have hkid := isKidHex_no_zero (hn.kids kid (.inl rfl))
    have hext : ∀ t, p.extKid = some t → ∀ c ∈ t, c ≠ 0 := fun t ht => isKidHex_no_zero (hn.kids t (.inr ht))
    exact .append (.append (.append (.append (.append (.append (.str (by decide) hkid) (.str (by decide) hlabel))
      (.str (by decide) (hs _ (.inl rfl)))) (.optStr (by decide) hext)) (.optB64 (by decide)))
      (.optStr (by decide) hmode)) (.optB64 (by decide))

/-- The body has every argument under its name. -/
theorem spells {w : KeyWrite} (hf : w.Further) (hm : Fielded w.members) : Spells (.obj w.members) w := by
  refine ⟨rfl, carries_str ?_, carries_str ?_, carries_str ?_, carries_str ?_, carries_b64 ?_, carries_str ?_,
    carries_b64 ?_, fun key hk => hm.only hk⟩
  all_goals
    cases w with
    | create p => simp +decide [members, strMember_eq, optB64Member_eq]
    | update kid label descr => simp +decide [members, strMember_eq, optB64Member_eq]
    | imported p => simp +decide [members, strMember_eq, b64Member_eq, optB64Member_eq, Buf.supplied_data hf]
    | derive kid label type p mode descr => simp +decide [members, deriveMembers, strMember_eq, optB64Member_eq]

end KeyWrite

theorem declines_ctxFail {α : Type} (fmt : List Piece) :
    Declines (clearError >>= fun _ => (ctxFail .arg 0 none fmt : Cmd α)) := by
  intro s
  simp [recordEvents, Ctx.setError, Ctx.recorded]

theorem Declines.refuses {α : Type} {x : Cmd α} (h : Declines x) : Refuses x :=
  fun s => wp_mono (h s) fun _ _ _ h => ⟨h.1, h.2.1⟩

section
variable {cfg : Config}

/-- All checks that the calls make of their arguments. -/
structure KeyWrite.Taken (w : KeyWrite) : Prop extends w.Named where
  further : w.Further
  descr : Api.descrOver w.descr = false

theorem KeyWrite.declines {w : KeyWrite} (h : ¬w.Taken) : Declines (w.call cfg) := by
  cases w with
  | create p =>
    show Declines (Api.keyCreate p : Api cfg Bytes).cmd
    unfold Api.keyCreate
    split
    · exact declines_ctxFail _
    rename_i hlabel
    split
    · exact declines_ctxFail _
    rename_i hdescr
    rw [not_not] at hlabel
    refine absurd ⟨⟨fun kid hk => ?_, hlabel⟩, trivial, by simpa using hdescr⟩ h
    rcases hk with hk | hk
    · exact nomatch hk
    · exact nomatch hk
  | update kid label descr => 
    show Declines (Api.keyUpdate kid label descr : Api cfg Unit).cmd
    unfold Api.keyUpdate
    split
    · exact declines_ctxFail _
    rename_i hkid
    split
    · exact declines_ctxFail _
    rename_i hlabel
    split
    · exact declines_ctxFail _
    rename_i hdescr
    rw [not_not] at hkid hlabel
    refine absurd ⟨⟨fun k hk => ?_, hlabel⟩, trivial, by simpa using hdescr⟩ h
    rcases hk with hk | hk
    · cases hk
      exact hkid
    · exact nomatch hk
  | imported p => 
    show Declines (Api.keyImport p : Api cfg Bytes).cmd
    unfold Api.keyImport
    split
    · exact fun s => wp_throwRc.mpr ⟨rfl, rfl, rfl⟩
    rename_i hpub
    split
    · exact declines_ctxFail _
    rename_i hlabel
    split
    · exact declines_ctxFail _
    rename_i hdescr
    rw [not_not] at hlabel
    refine absurd ⟨⟨fun kid hk => ?_, hlabel⟩, hpub, by simpa using hdescr⟩ h
    rcases hk with hk | hk
    · exact nomatch hk
    · exact nomatch hk
  | derive kid label type p mode descr =>
    show Declines (Api.keyDerive kid label type p.extKid p.pubkey mode descr : Api cfg Bytes).cmd
    unfold Api.keyDerive
    split
    · exact declines_ctxFail _
    rename_i hkid
    split
    · exact declines_ctxFail _
    rename_i hlabel
    split
    · exact declines_ctxFail _
    rename_i htype
    split
    · exact declines_ctxFail _
    rename_i hone
    split
    · exact declines_ctxFail _
    rename_i hhex
    split
    · exact declines_ctxFail _
    rename_i hshort
    split
    · exact declines_ctxFail _
    rename_i hdescr
    rw [not_hex_iff, not_not] at hhex
    rw [not_not] at hkid hlabel
    rw [not_or, not_lt] at htype
    refine absurd ⟨⟨fun k hk => ?_, hlabel⟩, ⟨htype, hone, hhex, fun hp => ?_⟩, by simpa using hdescr⟩ h
    · rcases hk with hk | hk
      · cases hk
        exact hkid
      · have hext : p.extKid = some k := hk
        rw [hext] at hhex
        exact hhex
    · by_contra hlen
      exact hshort ⟨hp, by omega⟩

/-- Arguments that pass every check are dispatched. -/
theorem KeyWrite.accepts (ht : cfg.hasTransport = true) {w : KeyWrite} (h : w.Taken) :
    Accepts cfg (w.call cfg) w.path w.scope w.members := by
  obtain ⟨⟨hkids, hlabel⟩, hfurther, hdescr⟩ := h
  cases w with
  | create p =>
    simp only [KeyWrite.label, KeyWrite.descr] at hlabel hdescr
    show Accepts cfg (Api.keyCreate p : Api cfg Bytes).cmd _ _ _
    unfold Api.keyCreate
    rw [if_neg (not_not.mpr hlabel), if_neg (Bool.eq_false_iff.mp hdescr)]
    exact accepts_json ht _ _ _ _
  | update kid label descr =>
    simp only [KeyWrite.label, KeyWrite.descr] at hlabel hdescr
    show Accepts cfg (Api.keyUpdate kid label descr : Api cfg Unit).cmd _ _ _
    unfold Api.keyUpdate
    rw [if_neg (not_not.mpr (hkids kid (.inl rfl))), if_neg (not_not.mpr hlabel), if_neg (Bool.eq_false_iff.mp hdescr)]
    exact accepts_empty ht _ _ _ _
  | imported p =>
    simp only [KeyWrite.label, KeyWrite.descr] at hlabel hdescr
    show Accepts cfg (Api.keyImport p : Api cfg Bytes).cmd _ _ _
    unfold Api.keyImport
    rw [if_neg hfurther, if_neg (not_not.mpr hlabel), if_neg (Bool.eq_false_iff.mp hdescr)]
    exact accepts_json ht _ _ _ _
  | derive kid label type p mode descr =>
    exact derive_accepts (a := ⟨kid, label, type, mode, descr, hkids kid (.inl rfl), hlabel, hfurther.1, hdescr⟩)
      ht hfurther.2

theorem yields_printObject (ms : List (Bytes × Json)) :
    Yields (printObject ms) fun body => body = printValue (.obj ms) := .bind fun _ => .pure rfl

namespace Neutral
variable {K : Contract Op Ans Ctx} (h : Neutral K)
include h

theorem answeredKid (root : Json) (what : String) : Keeps K (Api.answeredKid root what : Api cfg Bytes).cmd := by
  unfold Api.answeredKid
  split
  · exact h.ctxFail ..
  · split
    · exact .pure _
    · exact h.ctxFail ..

theorem map406NotFound {α : Type} (rc : Rc) (what : String) :
    Keeps K (Api.map406NotFound rc what : Api cfg α).cmd := by
  refine .bind .get fun s => ?_
  dsimp only
  split
  · exact h.ctxFail ..
  · exact .throw _

end Neutral

/-- Every dispatch of a write under a scope has the printed members for its body. -/
theorem KeyWrite.sends (w : KeyWrite) :
    Keeps (Emits (PageSend .post w.path (some (printValue (.obj w.members))))) (w.call cfg) := by
  have hn := pageSend_neutral .post w.path (some (printValue (.obj w.members)))
  cases w with
  | create p =>
    refine .bind hn.clearError fun _ => ?_
    split
    · exact hn.ctxFail ..
    split
    · exact hn.ctxFail ..
    refine .bind_yields (hn.printObject _) (yields_printObject _) fun body hb => ?_
    rw [hb]
    exact .bind pageSend_request fun root => hn.answeredKid root _
  | update kid label descr =>
    refine .bind hn.clearError fun _ => ?_
    split
    · exact hn.ctxFail ..
    split
    · exact hn.ctxFail ..
    split
    · exact hn.ctxFail ..
    refine .bind_yields (hn.printObject _) (yields_printObject _) fun body hb => ?_
    rw [hb]
    refine .bind (.bind (.attempt pageSend_requestRaw) fun r => .bind .get fun s => .pure _) fun r => ?_
    cases r with
    | ok _ => exact hn.clearError
    | error rc => exact hn.map406NotFound ..
  | imported p =>
    show Keeps _ (Api.keyImport p : Api cfg Bytes).cmd
    unfold Api.keyImport
    split
    · exact .throw _
    refine .bind hn.clearError fun _ => ?_
    split
    · exact hn.ctxFail ..
    split
    · exact hn.ctxFail ..
    refine .bind_yields (hn.printObject _) (yields_printObject _) fun body hb => ?_
    rw [hb]
    exact .bind pageSend_request fun root => hn.answeredKid root _
  | derive kid label type p mode descr =>
    refine .bind hn.clearError fun _ => ?_
    iterate 7
      split
      · exact hn.ctxFail ..
    refine .bind_yields (hn.printObject _) (yields_printObject _) fun body hb => ?_
    rw [hb]
    exact .bind pageSend_request fun root => hn.answeredKid root _

end

/-- A null description with a length beyond the bound, where every check of the call passes. -/
def KeyWrite.Slips (w : KeyWrite) : Prop :=
  w.descr.isNull = true ∧ keymgmtDescrMax < w.descr.len ∧ w.Named ∧ w.Further

theorem descrOver_eq_false (b : Buf) :
    Api.descrOver b = false ↔ b.isNull = true ∨ b.len ≤ keymgmtDescrMax := by
  cases hn : b.isNull <;> simp [Api.descrOver, hn]

/-- A write keeps to its documentation for exactly the arguments that hold no null description
with a length beyond the bound. -/
theorem key_write_kept_iff (cfg : Config) (ht : cfg.hasTransport = true) (w : KeyWrite) (hs : w.CStrings) :
    w.Kept cfg ↔ ¬w.Slips := by
  constructor
  · rintro h ⟨hnull, hlen, hnamed, hfurther⟩
    have htaken : w.Taken := ⟨hnamed, hfurther, (descrOver_eq_false _).mpr (.inl hnull)⟩
    have hout : ¬w.InBounds := fun hb => by
      have := hb.descr
      omega
    exact (KeyWrite.accepts ht htaken).not_refuses (h.declined hout).refuses
  · intro h
    have hspelled : w.Named → w.Further → SpelledBy (printValue (.obj w.members)) w := by
      intro hn hf
      have hm := KeyWrite.fielded hn hs
      have hne : w.members ≠ [] := by
        cases w <;> simp [KeyWrite.members, deriveMembers, strMember]
      exact ⟨_, jsonParse_printValue hne hm.strings, KeyWrite.spells hf hm⟩
    refine ⟨fun hout => KeyWrite.declines fun htaken => ?_, fun hb s => ?_, fun hb hf => ?_⟩
    · have hlen : ¬w.descr.len ≤ keymgmtDescrMax := fun hlen => hout ⟨htaken.toNamed, hlen⟩
      rcases (descrOver_eq_false _).mp htaken.descr with hnull | hle
      · exact h ⟨hnull, by omega, htaken.toNamed, htaken.further⟩
      · exact hlen hle
    · by_cases hf : w.Further
      · refine wp_mono (KeyWrite.sends w |>.run s) fun es _ _ hes scope req a hmem => ?_
        obtain ⟨-, -, hbody⟩ := hes _ hmem
        exact ⟨_, hbody, hspelled hb.toNamed hf⟩
      · refine wp_mono (KeyWrite.declines (fun htaken => hf htaken.further) s) fun es _ _ hes scope req a hmem => ?_
        rw [hes.1] at hmem
        exact absurd hmem List.not_mem_nil
    · have hover : Api.descrOver w.descr = false := (descrOver_eq_false _).mpr (.inr hb.descr)
      exact ⟨w.members, KeyWrite.accepts ht ⟨hb.toNamed, hf, hover⟩, hspelled hb.toNamed hf⟩

def sampleUpdate (descr : Buf) : KeyWrite := .update sampleKid (lit "k") descr

theorem described_update_kept : (sampleUpdate (.data (lit "note"))).Kept .standard :=
  (key_write_kept_iff .standard rfl _ (by simp [KeyWrite.CStrings, sampleUpdate])).mpr
    fun h => absurd h.1 Bool.false_ne_true

/-- A null description of 65 bytes is out of bounds, and the update is sent without one. -/
theorem null_description_is_dropped :
    Accepts .standard ((sampleUpdate (.null 65)).call .standard) (lit "/api/" ++ lit "keymgmt/update") (lit "keymgmt:upd")
      [(lit "kid", .str sampleKid), (lit "label", .str (lit "k"))] ∧
    ¬(sampleUpdate (.null 65)).Kept .standard := by
  have htaken : (sampleUpdate (.null 65)).Taken := by
    refine ⟨⟨fun kid hk => ?_, by decide⟩, trivial, rfl⟩
    rcases hk with hk | hk
    · cases hk
      decide
    · exact nomatch hk
  have hsent : Accepts .standard ((sampleUpdate (.null 65)).call .standard) _ _ _ := KeyWrite.accepts rfl htaken
  refine ⟨hsent, fun h => hsent.not_refuses (h.declined fun hb => ?_).refuses⟩
  exact absurd hb.descr (by decide)

end EncedoHem
