import EncedoHem.Crypto
import EncedoHem.Proofs.CheckinLegs
import EncedoHem.Scripted

namespace EncedoHem
open Text Dialogue

section
variable {cfg : Config} {scope : Option Bytes} {method : Method} {path : Bytes} {body : Option Bytes}
  {ov : TlsOverride}

/-- The answer to one of the request's own dispatches. -/
def Delivered (cfg : Config) (scope : Option Bytes) (method : Method) (path : Bytes) (body : Option Bytes)
    (ov : TlsOverride) (es : List Event) (a : Answer) : Prop :=
  ∃ bearer fresh, ⟨.send scope (buildRequest cfg method path body bearer ov fresh), a⟩ ∈ es

theorem Delivered.after (es es' : List Event) (a : Answer) (h : Delivered cfg scope method path body ov es' a) :
    Delivered cfg scope method path body ov (es ++ es') a := by
  obtain ⟨bearer, fresh, hm⟩ := h
  exact ⟨bearer, fresh, List.mem_append_right es hm⟩

theorem Delivered.before {es es' : List Event} {a : Answer} (h : Delivered cfg scope method path body ov es a) :
    Delivered cfg scope method path body ov (es ++ es') a := by
  obtain ⟨bearer, fresh, hm⟩ := h
  exact ⟨bearer, fresh, List.mem_append_left es' hm⟩

theorem draws_doSend (bearer : Option Bytes) (fresh : Bool) :
    Draws (doSend cfg scope method path body bearer ov fresh) (Delivered cfg scope method path body ov) := by
  refine ⟨fun s => ?_⟩
  rw [wp_doSend]
  intro a b hb
  rw [← Except.ok.inj hb]
  exact ⟨bearer, fresh, List.mem_append_right _ List.mem_cons_self⟩

theorem draws_ctxFail {α : Type} {V : List Event → α → Prop} (rc : Rc) (status : Int) (payload : Option Bytes)
    (fmt : List Piece) : Draws (ctxFail rc status payload fmt : Cmd α) V := .bind_any fun _ _ => .throw _ _

/-- Certificate recovery goes on with the answer it was given or with that of its own resend. -/
theorem draws_recoverCert (checkin : Cmd Unit) (bearer : Option Bytes) (a : Answer) :
    Draws (recoverCert cfg checkin (doSend cfg scope method path body bearer ov true) path ov a)
      (fun es a' => a' = a ∨ Delivered cfg scope method path body ov es a') := by
  have hafter : ∀ es es' a', (a' = a ∨ Delivered cfg scope method path body ov es' a') →
      a' = a ∨ Delivered cfg scope method path body ov (es ++ es') a' :=
    fun es es' a' h => h.imp_right (Delivered.after es es' a')
  refine .bind hafter fun s => ?_
  split
  · refine .ite (fun _ => .pure (.inl rfl)) fun _ => .bind hafter fun crc => ?_
    cases crc with
    | error rc => exact .bind_any fun _ _ => .bind_any fun _ _ => .throw _ _
    | ok u =>
      refine .bind_of (draws_doSend bearer true) fun es a' ha' => ?_
      split
      · exact .bind_any fun _ _ => .pure (.inr ha'.before)
      · exact .bind_any fun _ _ => .bind_any fun _ _ => .throw _ _
      · exact .pure (.inr ha'.before)
  · exact .pure (.inl rfl)

theorem draws_requireDone (a : Answer) : Draws (requireDone path a) fun _ r => a = .done r := by
  cases a with
  | done r => exact .pure rfl
  | failed why expired detail => exact .bind_any fun _ _ => .bind_any fun _ _ => .throw _ _

theorem draws_retryAuth (ensure : Bytes → Cmd Bytes) (r : Response) :
    Draws (retryAuth ensure (fun bearer => doSend cfg scope method path body bearer ov true) path scope r)
      (fun es r' => r' = r ∨ Delivered cfg scope method path body ov es (.done r')) := by
  have hafter : ∀ es es' r', (r' = r ∨ Delivered cfg scope method path body ov es' (.done r')) →
      r' = r ∨ Delivered cfg scope method path body ov (es ++ es') (.done r') :=
    fun es es' r' h => h.imp_right (Delivered.after es es' (.done r'))
  unfold retryAuth
  cases scope with
  | none => exact .pure (.inl rfl)
  | some sc =>
    refine .ite (fun _ => .pure (.inl rfl)) fun _ => ?_
    refine .bind hafter fun _ => .bind hafter fun _ => .bind hafter fun bearer => ?_
    refine .bind_of (draws_doSend (some bearer) true) fun es a ha => ?_
    cases a with
    | done r' => exact .pure (.inr ha.before)
    | failed why expired detail => exact draws_ctxFail ..

theorem draws_judge (r : Response) :
    Draws (judge path r) fun _ b => r.fault = none ∧ ∃ body, r.body = some body ∧ b = cstr body := by
  refine ⟨fun s => wp_judge_of (fun body hf hb c hc => ?_) fun _ _ _ _ _ _ _ hc => nomatch hc⟩
  exact ⟨hf, body, hb, (Except.ok.inj hc).symm⟩

/-- What a request hands out came with a good answer to a dispatch of its own. -/
def Received (cfg : Config) (scope : Option Bytes) (method : Method) (path : Bytes) (body : Option Bytes)
    (ov : TlsOverride) (es : List Event) (b : Bytes) : Prop :=
  ∃ r text, Delivered cfg scope method path body ov es (.done r) ∧ r.fault = none ∧ r.body = some text ∧ b = cstr text

theorem draws_requestRaw :
    Draws (requestRaw cfg method path body scope ov) (Received cfg scope method path body ov) := by
  have hafter : ∀ es es' b, Received cfg scope method path body ov es' b →
      Received cfg scope method path body ov (es ++ es') b := by
    rintro es es' b ⟨r, text, hd, hrest⟩
    exact ⟨r, text, hd.after es es' _, hrest⟩
  refine .ite (fun _ => draws_ctxFail ..) fun _ => .bind hafter fun bearer => ?_
  refine .bind_of (draws_doSend bearer false) fun es a ha => ?_
  refine .bind_of (draws_recoverCert _ bearer a) fun es₁ a₁ h₁ => ?_
  refine .bind_of (draws_requireDone a₁) fun es₂ r h₂ => ?_
  refine .bind_of (draws_retryAuth _ r) fun es₃ r₃ h₃ => (draws_judge r₃).mono fun es₄ b hb => ?_
  obtain ⟨hf, text, htext, hb⟩ := hb
  refine ⟨r₃, text, ?_, hf, htext, hb⟩
  rcases h₃ with rfl | h₃
  · subst h₂
    rcases h₁ with rfl | h₁
    · exact ha.before
    · exact h₁.before.after es _ _
  · exact ((h₃.before.after es₂ _ _).after es₁ _ _).after es _ _

theorem draws_parseBody (b : Bytes) : Draws (parseBody path b) fun _ root => jsonParse b = some root := by
  have hparse : Draws (parseJson b) fun _ root => ∀ v, root = some v → jsonParse b = some v := by
    refine .bind_any fun _ ok => .pure ?_
    intro v hv
    split at hv
    · exact hv
    · exact nomatch hv
  refine .bind_of hparse fun es root hroot => ?_
  cases root with
  | none => exact draws_ctxFail ..
  | some v => exact .ite (fun _ => .pure (hroot v rfl)) fun _ => draws_ctxFail ..

end

namespace Random
variable {cfg : Config} {kid : Bytes}

/-- The one cipher request that `ehem_random` makes, over and over. -/
def harvest (cfg : Config) (kid : Bytes) : Cmd Ciphertext :=
  (Api.encrypt kid (lit "AES128-CBC") [0] (.null 0) .none (.null 0) : Api cfg Ciphertext).cmd

/-- The IV of a good answer of the device to a cipher request under the key's scope. -/
structure DeviceIv (cfg : Config) (kid : Bytes) (es : List Event) (iv : Bytes) : Prop where
  size : iv.length = cipherIvLen
  sent : ∃ body text root, Received cfg (some (useScope kid)) .post (lit "/api/" ++ lit "crypto/cipher/encrypt")
      (some body) .default es text ∧ jsonParse text = some root ∧
    Api.decodeFixedField root "iv" cipherIvLen = some (some iv)

theorem decodeFixedField_length {root : Json} {name : String} {want : Nat} {b : Bytes}
    (h : Api.decodeFixedField root name want = some (some b)) : b.length = want := by
  unfold Api.decodeFixedField at h
  split at h
  · exact nomatch h
  · split at h
    · exact nomatch h
    · rename_i b' hb
      rw [← Option.some.inj (Option.some.inj h)]
      simpa using (Option.filter_eq_some_iff.mp hb).2

theorem draws_parseCiphertext (root : Json) : Draws (Api.parseCiphertext root : Api cfg Ciphertext).cmd
    fun _ ct => Api.decodeFixedField root "iv" cipherIvLen = some ct.iv := by
  unfold Api.parseCiphertext
  split
  · exact draws_ctxFail ..
  · rw [Program.cmd_bind]
    refine .bind_any fun _ _ => ?_
    split
    · rename_i ct iv tag _ hiv _
      exact .pure hiv
    · exact draws_ctxFail ..

/-- An IV that the cipher hands out is the device's. -/
theorem draws_harvest : Draws (harvest cfg kid) fun es ct => ∀ iv, ct.iv = some iv → DeviceIv cfg kid es iv := by
  unfold harvest Api.encrypt Api.useKey Api.requestJson
  simp only [Program.cmd_bind]
  have hafter : ∀ es es' (ct : Ciphertext), (∀ iv, ct.iv = some iv → DeviceIv cfg kid es' iv) →
      ∀ iv, ct.iv = some iv → DeviceIv cfg kid (es ++ es') iv := by
    intro es es' ct h iv hiv
    obtain ⟨hsize, body, text, root, ⟨r, b, hd, hrest⟩, hroot⟩ := h iv hiv
    exact ⟨hsize, body, text, root, ⟨r, b, hd.after es es' _, hrest⟩, hroot⟩
  refine .bind hafter fun _ => .bind hafter fun body => ?_
  rw [Cmd.bind_assoc]
  refine .bind_of draws_requestRaw fun es text ht => .bind_of (draws_parseBody text) fun es₁ root hroot => ?_
  refine (draws_parseCiphertext root).mono fun es₂ ct hct iv hiv => ?_
  rw [hiv] at hct
  obtain ⟨r, b, hd, hrest⟩ := ht
  exact ⟨decodeFixedField_length hct, body, text, root, ⟨r, b, hd.before, hrest⟩, hroot, hct⟩

/-- One round of the loop: a cipher call that succeeds, with the IV that it brought. -/
structure Round (cfg : Config) (kid : Bytes) (s : Ctx) (es : List Event) (iv : Bytes) (s' : Ctx) : Prop where
  call : ∃ ct, Runs (harvest cfg kid) s es (.ok ct) s' ∧ ct.iv = some iv
  device : DeviceIv cfg kid es iv

/-- Rounds one after the other, and nothing between them. -/
inductive Rounds (cfg : Config) (kid : Bytes) : Ctx → List Event → List Bytes → Ctx → Prop where
  | nil (s : Ctx) : Rounds cfg kid s [] [] s
  | cons {s s₁ s' : Ctx} {es es' : List Event} {iv : Bytes} {ivs : List Bytes} (h : Round cfg kid s es iv s₁)
      (rest : Rounds cfg kid s₁ es' ivs s') : Rounds cfg kid s (es ++ es') (iv :: ivs) s'

/-- A round that fails: the cipher call does, or its answer carries no IV. -/
inductive Broken (cfg : Config) (kid : Bytes) (s : Ctx) : List Event → Rc → Ctx → Prop where
  | call {es : List Event} {rc : Rc} {s' : Ctx} (h : Runs (harvest cfg kid) s es (.error rc) s') :
      Broken cfg kid s es rc s'
  | bare {es es' : List Event} {ct : Ciphertext} {rc : Rc} {s₁ s' : Ctx}
      (h : Runs (harvest cfg kid) s es (.ok ct) s₁) (hn : ct.iv = none)
      (hf : Runs (Api.noIv : Api cfg Unit).cmd s₁ es' (.error rc) s') : Broken cfg kid s (es ++ es') rc s'

/-- The writes of the rounds into a buffer of `len` bytes that holds `filled` already. -/
def fills (len : Nat) : Nat → List Bytes → List Api.Store
  | _, [] => []
  | filled, iv :: ivs =>
    let take := min (len - filled) cipherIvLen
    ⟨filled, iv.take take⟩ :: fills len (filled + take) ivs

/-- What the loop makes of its rounds, with `filled` bytes of `len` behind it. -/
inductive Looped (cfg : Config) (kid : Bytes) (len filled : Nat) (s : Ctx) :
    List Event → Except Rc Unit → List Api.Store → Ctx → Prop where
  | full {es : List Event} {ivs : List Bytes} {s' : Ctx} (h : Rounds cfg kid s es ivs s')
      (hl : ivs.length = (len - filled + 15) / 16) :
      Looped cfg kid len filled s es (.ok ()) (fills len filled ivs) s'
  | broken {es es' : List Event} {ivs : List Bytes} {rc : Rc} {s₁ s' : Ctx} (h : Rounds cfg kid s es ivs s₁)
      (hl : filled + 16 * ivs.length < len) (hb : Broken cfg kid s₁ es' rc s') :
      Looped cfg kid len filled s (es ++ es') (.error rc)
        (fills len filled ivs ++ [Api.zeroize (filled + 16 * ivs.length)]) s'

/-- A round before the others. -/
theorem Looped.round {len filled : Nat} {s s₁ s' : Ctx} {es es' : List Event} {iv : Bytes} {rc : Except Rc Unit}
    {vs : List Api.Store} (hd : Round cfg kid s es iv s₁) (hf : filled < len)
    (h : Looped cfg kid len (filled + min (len - filled) cipherIvLen) s₁ es' rc vs s') :
    Looped cfg kid len filled s (es ++ es') rc
      (⟨filled, iv.take (min (len - filled) cipherIvLen)⟩ :: vs) s' := by
  unfold cipherIvLen at *
  cases h with
  | full h hl => exact .full (.cons hd h) (by rw [List.length_cons]; omega)
  | @broken es₁ es₂ ivs rc s₂ _ h hl hb =>
    -- the round was no partial one, as the buffer is not full after it
    have htake : min (len - filled) 16 = 16 := by omega
    have hwipe : filled + min (len - filled) 16 + 16 * ivs.length = filled + 16 * (iv :: ivs).length := by
      rw [List.length_cons]
      omega
    rw [hwipe, ← List.append_assoc]
    exact .broken (.cons hd h) (by rw [List.length_cons]; omega) hb

/-- Nothing is left to fill. -/
theorem wp_looped_done {len filled : Nat} (hle : len ≤ filled) (ws : List Api.Store) (s : Ctx) :
    wp (Pure.pure (.ok (), ws) : Cmd (Except Rc Unit × List Api.Store)) (fun es r s' =>
      ∃ rc vs, r = .ok (rc, ws ++ vs) ∧ Looped cfg kid len filled s es rc vs s') s := by
  rw [wp_pure]
  refine ⟨.ok (), [], by rw [List.append_nil], .full (.nil s) ?_⟩
  rw [List.length_nil]
  omega

/-- The round at hand fails. -/
theorem Looped.wiped {len filled : Nat} {s s' : Ctx} {es : List Event} {rc : Rc} (hlt : filled < len)
    (hb : Broken cfg kid s es rc s') : Looped cfg kid len filled s es (.error rc) [Api.zeroize filled] s' :=
  .broken (.nil s) (by rw [List.length_nil]; omega) hb

theorem wp_randomLoop {len rounds filled : Nat} (hf : filled ≤ len) (hr : len - filled ≤ rounds)
    (ws : List Api.Store) (s : Ctx) :
    wp (Api.randomLoop kid len rounds filled ws : Api cfg _).cmd (fun es r s' =>
      ∃ rc vs, r = .ok (rc, ws ++ vs) ∧ Looped cfg kid len filled s es rc vs s') s := by
  induction rounds generalizing filled ws s with
  | zero => exact wp_looped_done (by omega) ws s
  | succ rounds ih =>
    unfold Api.randomLoop
    rw [Program.cmd_ite, wp_ite]
    split
    · rename_i hle
      exact wp_looped_done hle ws s
    · rename_i hlt
      rw [Program.cmd_bind, wp_bind, Program.cmd_attempt, wp_attempt]
      refine wp_mono (wp_and (fun _ _ _ hrun => hrun : wp _ (Runs (harvest cfg kid) s) s) (draws_harvest.run s)) ?_
      rintro es r s₁ ⟨hrun, hdev⟩
      cases r with
      | error rc =>
        show wp (Pure.pure _ : Cmd _) _ _
        rw [wp_pure, List.append_nil]
        exact ⟨.error rc, _, rfl, .wiped (by omega) (.call hrun)⟩
      | ok ct =>
        dsimp only
        cases hiv : ct.iv with
        | none =>
          dsimp only
          rw [Program.cmd_bind, wp_bind, Program.cmd_attempt, wp_attempt]
          intro es' r' s' hrun'
          cases r' with
          | ok u => exact ((yields_ctxFail .. : Yields (Api.noIv : Api cfg Unit).cmd fun _ => False).run s₁ _ _ _ hrun' u rfl).elim
          | error rc =>
            show wp (Pure.pure _ : Cmd _) _ _
            rw [wp_pure, List.append_nil]
            exact ⟨.error rc, _, rfl, .wiped (by omega) (.bare hrun hiv hrun')⟩
        | some iv =>
          dsimp only
          refine wp_mono (ih (by omega) (by unfold cipherIvLen; omega) _ s₁) ?_
          rintro es' r' s' ⟨rc, vs, hres, hl⟩
          rw [List.append_assoc] at hres
          exact ⟨rc, _, hres, hl.round ⟨⟨ct, hrun, hiv⟩, hdev ct rfl iv hiv⟩ (by omega)⟩

theorem Rounds.sizes {s s' : Ctx} {es : List Event} {ivs : List Bytes} (h : Rounds cfg kid s es ivs s') :
    ∀ iv ∈ ivs, iv.length = 16 := by
  induction h with
  | nil s => exact fun _ hm => absurd hm List.not_mem_nil
  | cons h rest ih => exact List.forall_mem_cons.mpr ⟨h.device.size, ih⟩

/-- The buffer after a write. -/
def stored (buf : Bytes) (w : Api.Store) : Bytes :=
  buf.take w.offset ++ w.bytes ++ buf.drop (w.offset + w.bytes.length)

/-- The buffer after writes, in their order. -/
def written (buf : Bytes) (ws : List Api.Store) : Bytes := ws.foldl stored buf

theorem length_stored {buf : Bytes} {w : Api.Store} (h : w.offset + w.bytes.length ≤ buf.length) :
    (stored buf w).length = buf.length := by
  simp only [stored, List.length_append, List.length_take, List.length_drop]
  omega

/-- What the rounds write: the IVs one after the other, as far as the buffer goes. Induction on the
IVs; what is before `filled` and what is behind the last byte written stays. -/
theorem written_fills {len filled : Nat} {ivs : List Bytes} (hs : ∀ iv ∈ ivs, iv.length = 16) {buf : Bytes}
    (hf : filled ≤ len) (hb : len ≤ buf.length) :
    written buf (fills len filled ivs) = buf.take filled ++ ivs.flatten.take (len - filled) ++
      buf.drop (filled + (ivs.flatten.take (len - filled)).length) := by
  induction ivs generalizing filled buf with
  | nil => simp [written, fills]
  | cons iv ivs ih =>
    obtain ⟨hiv, hivs⟩ := List.forall_mem_cons.mp hs
    have hm : filled + min (len - filled) 16 ≤ len := by omega
    have hlen : (iv.take (min (len - filled) 16)).length = min (len - filled) 16 := by
      rw [List.length_take]
      omega
    have hfit : filled + (iv.take (min (len - filled) 16)).length ≤ buf.length := by
      rw [hlen]
      omega
    have hstep : written buf (fills len filled (iv :: ivs)) =
        written (stored buf ⟨filled, iv.take (min (len - filled) 16)⟩)
          (fills len (filled + min (len - filled) 16) ivs) := rfl
    have htake : (iv :: ivs).flatten.take (len - filled) =
        iv.take (min (len - filled) 16) ++ ivs.flatten.take (len - (filled + min (len - filled) 16)) := by
      rw [List.flatten_cons, List.take_append, hiv, ← hiv, ← List.take_eq_take_min, hiv]
      congr 2
      omega
    have hfront : (buf.take filled ++ iv.take (min (len - filled) 16)).length = filled + min (len - filled) 16 := by
      rw [List.length_append, List.length_take, hlen]
      omega
    rw [hstep, ih hivs hm (by rw [length_stored hfit]; exact hb), htake]
    generalize hrest : ivs.flatten.take (len - (filled + min (len - filled) 16)) = rest
    simp only [stored]
    rw [hlen, ← hfront, List.take_left, ← List.drop_drop, List.drop_left, List.drop_drop, hfront]
    rw [List.length_append, hlen, Nat.add_assoc]
    simp only [List.append_assoc]

theorem fills_within {len filled : Nat} {ivs : List Bytes} (hf : filled ≤ len) :
    ∀ w ∈ fills len filled ivs, w.offset + w.bytes.length ≤ len := by
  induction ivs generalizing filled with
  | nil => exact fun _ hm => absurd hm List.not_mem_nil
  | cons iv ivs ih =>
    refine List.forall_mem_cons.mpr ⟨?_, ih (by omega)⟩
    simp only [List.length_take]
    omega

theorem length_flatten {ivs : List Bytes} (hs : ∀ iv ∈ ivs, iv.length = 16) : ivs.flatten.length = 16 * ivs.length := by
  induction ivs with
  | nil => rfl
  | cons iv ivs ih =>
    obtain ⟨hiv, hivs⟩ := List.forall_mem_cons.mp hs
    rw [List.flatten_cons, List.length_append, hiv, ih hivs, List.length_cons]
    omega

/-- A buffer filled to its end. -/
theorem written_full {n : Nat} {ivs : List Bytes} (hs : ∀ iv ∈ ivs, iv.length = 16) (hl : ivs.length = (n + 15) / 16)
    {buf : Bytes} (hb : n ≤ buf.length) : written buf (fills n 0 ivs) = ivs.flatten.take n ++ buf.drop n := by
  have hlen : (ivs.flatten.take n).length = n := by
    rw [List.length_take, length_flatten hs]
    omega
  rw [written_fills hs (Nat.zero_le n) hb, Nat.sub_zero, hlen, Nat.zero_add, List.take_zero, List.nil_append]

/-- A buffer wiped after `k` rounds. -/
theorem written_wiped {n : Nat} {ivs : List Bytes} (hs : ∀ iv ∈ ivs, iv.length = 16) (hl : 16 * ivs.length < n)
    {buf : Bytes} (hb : n ≤ buf.length) :
    written buf (fills n 0 ivs ++ [Api.zeroize (16 * ivs.length)]) =
      List.replicate (16 * ivs.length) 0 ++ buf.drop (16 * ivs.length) := by
  have hall : ivs.flatten.take n = ivs.flatten := List.take_of_length_le (by rw [length_flatten hs]; omega)
  have hmid : written buf (fills n 0 ivs) = ivs.flatten ++ buf.drop (16 * ivs.length) := by
    rw [written_fills hs (Nat.zero_le n) hb, Nat.sub_zero, hall, length_flatten hs, Nat.zero_add, List.take_zero,
      List.nil_append]
  have hsplit : written buf (fills n 0 ivs ++ [Api.zeroize (16 * ivs.length)]) =
      stored (written buf (fills n 0 ivs)) (Api.zeroize (16 * ivs.length)) := by
    rw [written, List.foldl_concat]
    rfl
  rw [hsplit, hmid, stored, Api.zeroize, List.take_zero, List.nil_append, List.length_replicate, Nat.zero_add,
    List.drop_left' (length_flatten hs)]

theorem wp_random (hk : isKidHex kid = true) {n : Nat} (hn : 1 ≤ n) (s : Ctx) :
    wp (Api.random kid n : Api cfg _).cmd (fun es r s' =>
      ∃ rc ws, r = .ok (rc, ws) ∧ Looped cfg kid n 0 (s.setError .clear) es rc ws s') s := by
  have hcheck : (Api.checkKid (lit "crypto/random") kid : Api cfg Unit) = pure () := if_pos hk
  have hlen : ¬n < 1 := by omega
  unfold Api.random
  rw [hcheck, if_neg hlen]
  show wp (clearError >>= fun _ => (Api.randomLoop kid n n 0 [] : Api cfg _).cmd) _ s
  rw [wp_bind, wp_clearError]
  exact wp_randomLoop (Nat.zero_le n) (Nat.le_refl _) [] _

/-- Random bytes are the device's IVs, one cipher call for sixteen of them, and no byte behind the
buffer's `n` is written to. Where a round fails, what the rounds before it had filled is zero again. -/
theorem random_harvests_ivs (cfg : Config) (kid : Bytes) (hk : isKidHex kid = true) (n : Nat) (hn : 1 ≤ n)
    (s : Ctx) (es : List Event) (r : Except Rc (Except Rc Unit × List Api.Store)) (s' : Ctx)
    (h : Runs (Api.random kid n : Api cfg _).cmd s es r s') :
    ∃ rc ws ivs es₁ es₂ s₁, r = .ok (rc, ws) ∧ es = es₁ ++ es₂ ∧
      Rounds cfg kid (s.setError .clear) es₁ ivs s₁ ∧ (∀ w ∈ ws, w.offset + w.bytes.length ≤ n) ∧
      match rc with
      | .ok () => es₂ = [] ∧ s₁ = s' ∧ ivs.length = (n + 15) / 16 ∧
          ∀ buf, n ≤ buf.length → written buf ws = ivs.flatten.take n ++ buf.drop n
      | .error e => Broken cfg kid s₁ es₂ e s' ∧ ∀ buf, n ≤ buf.length →
          written buf ws = List.replicate (min (16 * ivs.length) n) 0 ++ buf.drop (min (16 * ivs.length) n) := by
  obtain ⟨rc, ws, hr, hl⟩ := wp_random hk hn s es r s' h
  cases hl with
  | @full _ ivs _ hrounds hl =>
    refine ⟨_, _, ivs, es, [], s', hr, (List.append_nil es).symm, hrounds, fills_within (Nat.zero_le n), rfl, rfl, hl, ?_⟩
    exact fun buf hb => written_full hrounds.sizes hl hb
  | @broken es₁ es₂ ivs rc s₁ _ hrounds hl hb =>
    rw [Nat.zero_add] at hl hr
    refine ⟨_, _, ivs, es₁, es₂, s₁, hr, rfl, hrounds, ?_, hb, fun buf hbuf => ?_⟩
    · intro w hw
      rcases List.mem_append.mp hw with hw | hw
      · exact fills_within (Nat.zero_le n) w hw
      · rw [List.mem_singleton.mp hw, Api.zeroize, List.length_replicate, Nat.zero_add]
        omega
    · rw [Nat.min_eq_left (by omega)]
      exact written_wiped hrounds.sizes hl hbuf

def sampleKid : Bytes := lit "0123456789abcdef0123456789ABCDEF"

/-- A context with a cached bearer for the use of the key. -/
def useCtx : Ctx :=
  { Ctx.initial with auth := some ⟨none, 0, false, none, false, [⟨useScope sampleKid, lit "t", 9⟩]⟩ }

def cipherAnswer (iv : String) : Answer := .object [("ciphertext", .str (lit "AA==")), ("iv", .str (lit iv))]

def twoIvs : List Answer := [cipherAnswer "AAECAwQFBgcICQoLDA0ODw==", cipherAnswer "EBESExQVFhcYGRobHB0eHw=="]

/-- Twenty bytes out of two IVs, in a buffer that is longer by one. -/
theorem random_twenty : ∃ (ws : List Api.Store) (ivs : List Bytes),
    scriptResult (Api.random sampleKid 20 : Api .standard _).cmd useCtx 5 twoIvs = .ok (.ok (), ws) ∧
    ivs.length = 2 ∧ written (List.replicate 21 7) ws = ivs.flatten.take 20 ++ [7] := by
  have hrun := script_runs (Api.random sampleKid 20 : Api .standard _).cmd useCtx 5 twoIvs
  have hok : (scriptResult (Api.random sampleKid 20 : Api .standard _).cmd useCtx 5 twoIvs).toOption.map Prod.fst =
      some (.ok ()) := by decide +kernel
  obtain ⟨rc, ws, ivs, es₁, es₂, s₁, hr, -, -, -, hrest⟩ :=
    random_harvests_ivs .standard sampleKid (by decide) 20 (by decide) _ _ _ _ hrun
  rw [hr] at hok
  obtain rfl : rc = .ok () := Option.some.inj hok
  obtain ⟨-, -, hlen, hbuf⟩ := hrest
  exact ⟨ws, ivs, hr, hlen, hbuf (List.replicate 21 7) (by decide)⟩

end Random

end EncedoHem
