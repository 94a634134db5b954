import EncedoHem.KeyType
import EncedoHem.Lib.Flags
import EncedoHem.Lib.Words

namespace EncedoHem
open Text Words

def modeTokens : List (Bytes × Nat) := [(lit "ExDSA", keyModeExdsa), (lit "ECDH", keyModeEcdh)]

def roleTokens : List (Bytes × Nat) :=
  [(lit "ATT", keyRoleAtt), (lit "PKEY", keyRolePkey), (lit "CERT", keyRoleCert), (lit "GENERIC_DER", keyRoleGenericDer)]

/-- The tokens that stand for a mode or a role. `CERT` is one of them, though the table names a
family so, too. -/
def flagTokens : List Bytes := (modeTokens ++ roleTokens).map Prod.fst

/-- The family that a token names as an algorithm literal of the table. -/
def algorithmOf (t : Bytes) : Option KeyFamily :=
  if t ∈ flagTokens then none else (keyFamilies.find? fun fi => t = fi.token).map (·.family)

def Recognized (t : Bytes) : Prop := t ∈ flagTokens ∨ (algorithmOf t).isSome = true

/-- A token of a type string. -/
structure IsToken (t : Bytes) : Prop where
  solid : 44 ∉ t
  ended : ∀ c ∈ t, c ≠ 0

instance (t : Bytes) : Decidable (IsToken t) :=
  have := List.decidableBAll (· ≠ 0) t
  decidable_of_iff (44 ∉ t ∧ ∀ c ∈ t, c ≠ 0) ⟨fun h => ⟨h.left, h.right⟩, fun h => ⟨h.solid, h.ended⟩⟩

/-- Tokens match in full only, whatever follows them in the string. -/
theorem tokIs_iff {t rest l : Bytes} : tokIs (t ++ rest) t.length l = true ↔ t = l := by
  simp only [tokIs, Bool.and_eq_true, decide_eq_true_eq, List.take_left]
  constructor
  · intro h
    exact h.right
  · rintro rfl
    exact ⟨rfl, rfl⟩

theorem tokIs_self (t l : Bytes) : tokIs t t.length l = decide (t = l) := by
  rw [Bool.eq_iff_iff, ← List.append_nil t, List.length_append, List.length_nil, Nat.add_zero, tokIs_iff]
  simp

/-- What one token does to the result. -/
def token (out : KeyTypeInfo) (t : Bytes) : KeyTypeInfo := keyTypeToken t t.length out

theorem keyTypeToken_append (t rest : Bytes) (out : KeyTypeInfo) :
    keyTypeToken (t ++ rest) t.length out = token out t := by
  have h : ∀ l, tokIs (t ++ rest) t.length l = tokIs t t.length l := by
    intro l
    rw [Bool.eq_iff_iff, tokIs_iff, tokIs_self, decide_eq_true_eq]
  simp only [token, keyTypeToken, h]

/-- All that a token can do: raise its flag, or name the family where none is named yet. -/
inductive Told (out : KeyTypeInfo) (t : Bytes) : KeyTypeInfo → Prop where
  | mode (bit : Nat) (h : (t, bit) ∈ modeTokens) : Told out t { out with modes := out.modes ||| bit }
  | role (bit : Nat) (h : (t, bit) ∈ roleTokens) : Told out t { out with roles := out.roles ||| bit }
  | plain (h : t ∉ flagTokens) : Told out t
      { out with family := if out.family = .unknown then (algorithmOf t).getD .unknown else out.family }

theorem token_tells (out : KeyTypeInfo) (t : Bytes) : Told out t (token out t) := by
  simp only [token, keyTypeToken, tokIs_self, decide_eq_true_eq]
  by_cases h1 : t = lit "ExDSA"
  · rw [if_pos h1, h1]
    exact .mode _ (by decide)
  by_cases h2 : t = lit "ECDH"
  · rw [if_neg h1, if_pos h2, h2]
    exact .mode _ (by decide)
  by_cases h3 : t = lit "ATT"
  · rw [if_neg h1, if_neg h2, if_pos h3, h3]
    exact .role _ (by decide)
  by_cases h4 : t = lit "PKEY"
  · rw [if_neg h1, if_neg h2, if_neg h3, if_pos h4, h4]
    exact .role _ (by decide)
  by_cases h5 : t = lit "CERT"
  · rw [if_neg h1, if_neg h2, if_neg h3, if_neg h4, if_pos h5, h5]
    exact .role _ (by decide)
  by_cases h6 : t = lit "GENERIC_DER"
  · rw [if_neg h1, if_neg h2, if_neg h3, if_neg h4, if_neg h5, if_pos h6, h6]
    exact .role _ (by decide)
  have hf : t ∉ flagTokens := by
    simp only [flagTokens, modeTokens, roleTokens, List.cons_append, List.nil_append, List.map_cons, List.map_nil,
      List.mem_cons, List.not_mem_nil, or_false, not_or]
    exact ⟨h1, h2, h3, h4, h5, h6⟩
  have hplain : Told out t _ := .plain hf
  rw [algorithmOf, if_neg hf] at hplain
  rw [if_neg h1, if_neg h2, if_neg h3, if_neg h4, if_neg h5, if_neg h6]
  by_cases hu : out.family = .unknown
  · rw [if_pos hu] at hplain ⊢
    cases hfi : keyFamilies.find? fun fi => t = fi.token with
    | some fi =>
      rw [hfi] at hplain
      exact hplain
    | none =>
      rw [hfi, Option.map_none, Option.getD_none, ← hu] at hplain
      exact hplain
  · rw [if_neg hu] at hplain ⊢
    exact hplain

theorem token_nil (out : KeyTypeInfo) : token out [] = out := by
  have h := token_tells out []
  generalize token out [] = out' at h
  cases h with
  | mode bit h => exact absurd h (by simp [modeTokens, lit])
  | role bit h => exact absurd h (by simp [roleTokens, lit])
  | plain h =>
    have hnone : algorithmOf [] = none := by decide
    rw [hnone, Option.getD_none]
    split
    · rename_i hu
      rw [← hu]
    · rfl

theorem flags_disjoint {t : Bytes} (hm : t ∈ modeTokens.map Prod.fst) : t ∉ roleTokens.map Prod.fst := by
  have hd : ∀ t ∈ modeTokens.map Prod.fst, t ∉ roleTokens.map Prod.fst := by decide
  exact hd t hm

theorem algorithmOf_flag {t : Bytes} (h : t ∈ flagTokens) : algorithmOf t = none := if_pos h

theorem algorithmOf_known {t : Bytes} {f : KeyFamily} (h : algorithmOf t = some f) : f ≠ .unknown := by
  have hall : ∀ fi ∈ keyFamilies, fi.family ≠ .unknown := by decide
  unfold algorithmOf at h
  split at h
  · exact nomatch h
  · obtain ⟨fi, hfi, rfl⟩ := Option.map_eq_some_iff.mp h
    exact hall fi (List.mem_of_find?_eq_some hfi)

/-- At most one algorithm literal occurs, as often as may be. -/
def OneAlgorithm (ts : List Bytes) : Prop :=
  ∀ t ∈ ts, ∀ u ∈ ts, (algorithmOf t).isSome = true → (algorithmOf u).isSome = true → t = u

instance (ts : List Bytes) : Decidable (OneAlgorithm ts) :=
  inferInstanceAs (Decidable (∀ t ∈ ts, ∀ u ∈ ts,
    (algorithmOf t).isSome = true → (algorithmOf u).isSome = true → t = u))

/-- The result while the walk is on, after the tokens `seen`. -/
structure Walked (seen : List Bytes) (out : KeyTypeInfo) : Prop where
  modes : out.modes = Flags.of modeTokens seen
  roles : out.roles = Flags.of roleTokens seen
  named : ∀ t ∈ seen, ∀ f, algorithmOf t = some f → out.family = f
  unnamed : (∀ t ∈ seen, algorithmOf t = none) → out.family = .unknown
  unsized : out.pubkeyLen = 0 ∧ out.sigMaxLen = 0 ∧ out.sigDer = false

namespace Walked

theorem zero : Walked [] .zero where
  modes := rfl
  roles := rfl
  named := fun _ ht => absurd ht List.not_mem_nil
  unnamed := fun _ => rfl
  unsized := ⟨rfl, rfl, rfl⟩

section
variable {seen : List Bytes} {out : KeyTypeInfo} {t : Bytes}

/-- A flag leaves the family as it is. -/
theorem named_flag (h : Walked seen out) (ht : t ∈ flagTokens) : ∀ u ∈ seen ++ [t], ∀ f,
    algorithmOf u = some f → out.family = f := by
  intro u hu f hf
  rcases List.mem_append.mp hu with hu | hu
  · exact h.named u hu f hf
  · rw [List.mem_singleton.mp hu, algorithmOf_flag ht] at hf
    exact nomatch hf

theorem unnamed_concat (h : Walked seen out) (hn : ∀ u ∈ seen ++ [t], algorithmOf u = none) :
    out.family = .unknown := h.unnamed fun u hu => hn u (List.mem_append_left [t] hu)

/-- What one token more does to the invariant. -/
theorem token (h : Walked seen out) (hone : OneAlgorithm (seen ++ [t])) :
    Walked (seen ++ [t]) (EncedoHem.token out t) := by
  have htold := token_tells out t
  generalize EncedoHem.token out t = out' at htold
  have hlast : t ∈ seen ++ [t] := List.mem_append_right seen List.mem_cons_self
  cases htold with
  | mode bit hb =>
    have ht : t ∈ flagTokens := List.mem_map.mpr ⟨_, List.mem_append_left _ hb, rfl⟩
    have hr : t ∉ roleTokens.map Prod.fst := flags_disjoint (List.mem_map_of_mem hb)
    constructor
    · rw [Flags.of_concat (by decide) hb, ← h.modes]
    · rw [Flags.of_concat_other hr, ← h.roles]
    · exact h.named_flag ht
    · exact h.unnamed_concat
    · exact h.unsized
  | role bit hb =>
    have ht : t ∈ flagTokens := List.mem_map.mpr ⟨_, List.mem_append_right _ hb, rfl⟩
    have hm : t ∉ modeTokens.map Prod.fst := fun hm => flags_disjoint hm (List.mem_map_of_mem hb)
    constructor
    · rw [Flags.of_concat_other hm, ← h.modes]
    · rw [Flags.of_concat (by decide) hb, ← h.roles]
    · exact h.named_flag ht
    · exact h.unnamed_concat
    · exact h.unsized
  | plain ht =>
    have hmr : t ∉ modeTokens.map Prod.fst ∧ t ∉ roleTokens.map Prod.fst := by
      rw [flagTokens, List.map_append, List.mem_append, not_or] at ht
      exact ht
    constructor
    · rw [Flags.of_concat_other hmr.left, ← h.modes]
    · rw [Flags.of_concat_other hmr.right, ← h.roles]
    · intro u hu f hf
      dsimp only
      rcases List.mem_append.mp hu with hseen | hu
      · have hfam := h.named u hseen f hf
        rw [if_neg (hfam ▸ algorithmOf_known hf), hfam]
      · rw [List.mem_singleton.mp hu] at hf
        split
        · rw [hf]
          rfl
        · rename_i hk
          -- the family is named already: by the same literal, as there is only one
          by_contra hne
          refine hk (h.unnamed fun v hv => ?_)
          by_contra hv'
          obtain ⟨g, hg⟩ := Option.ne_none_iff_exists'.mp hv'
          have hvt : v = t := hone v (List.mem_append_left [t] hv) t hlast (by rw [hg]; rfl) (by rw [hf]; rfl)
          rw [hvt, hf] at hg
          rw [hvt] at hv
          exact hne (h.named t hv f hf)
    · intro hn
      dsimp only
      rw [if_pos (h.unnamed_concat hn), hn t hlast]
      rfl
    · exact h.unsized

/-- Induction on the tokens from the last one back: the invariant holds after all of them. -/
theorem all {ts : List Bytes} (hone : OneAlgorithm ts) : Walked ts (ts.foldl EncedoHem.token .zero) := by
  induction ts using List.reverseRecOn with
  | nil => exact zero
  | append_singleton ts t ih =>
    rw [List.foldl_concat]
    refine (ih fun u hu v hv => ?_).token hone
    exact hone u (List.mem_append_left [t] hu) v (List.mem_append_left [t] hv)

end

end Walked

/-- The walk over a string takes its tokens one after the other; the empty one at the end, that it does
not come to, would add nothing. Induction on the tokens. -/
theorem keyTypeWalk_join {ts : List Bytes} (ht : ∀ t ∈ ts, IsToken t) {rounds : Nat} {out : KeyTypeInfo}
    (hr : (join 44 ts).length < rounds) : keyTypeWalk rounds (join 44 ts) out = ts.foldl token out := by
  induction ts generalizing rounds out with
  | nil =>
    cases rounds with
    | zero => rfl
    | succ rounds => rfl
  | cons t ts ih =>
    have hsolid := (ht t List.mem_cons_self).solid
    cases rounds with
    | zero => exact absurd hr (Nat.not_lt_zero _)
    | succ rounds =>
      rw [keyTypeWalk, List.foldl_cons]
      cases ts with
      | nil =>
        have hj : join 44 [t] = t := by simp
        have hcut : cutAt 44 t = none := by
          cases h : cutAt 44 t with
          | none => rfl
          | some lr => exact absurd (cutAt_spec h).left fun he => hsolid (he ▸ List.mem_append_right _ List.mem_cons_self)
        rw [hj, hcut]
        split
        · rename_i hnil
          rw [hnil, token_nil, List.foldl_nil]
        · show keyTypeWalk rounds [] (token out t) = token out t
          cases rounds with
          | zero => rfl
          | succ rounds => rfl
      | cons u us =>
        have hj : join 44 (t :: u :: us) = t ++ 44 :: join 44 (u :: us) := join_cons (List.cons_ne_nil u us)
        have hne : t ++ 44 :: join 44 (u :: us) ≠ [] := by simp
        rw [hj] at hr ⊢
        rw [if_neg hne, cutAt_append hsolid]
        dsimp only
        rw [keyTypeToken_append]
        apply ih fun v hv => ht v (List.mem_cons_of_mem t hv)
        rw [List.length_append, List.length_cons] at hr
        omega

/-- A string of tokens holds no zero. -/
theorem cstr_join {ts : List Bytes} (ht : ∀ t ∈ ts, IsToken t) : cstr (join 44 ts) = join 44 ts := by
  apply cstr_of_no_zero
  induction ts with
  | nil => exact fun x hx => absurd hx List.not_mem_nil
  | cons t ts ih =>
    have hhead := (ht t List.mem_cons_self).ended
    have htail := ih fun u hu => ht u (List.mem_cons_of_mem t hu)
    intro x hx
    cases ts with
    | nil => exact hhead x (by simpa using hx)
    | cons u us =>
      rw [join_cons (List.cons_ne_nil u us)] at hx
      rcases List.mem_append.mp hx with hx | hx
      · exact hhead x hx
      · rcases List.mem_cons.mp hx with rfl | hx
        · decide
        · exact htail x hx

/-- The family that the role tokens of a container name. -/
def containerOf (ts : List Bytes) : KeyFamily :=
  if lit "CERT" ∈ ts then .cert else if lit "GENERIC_DER" ∈ ts then .derPkey else .unknown

/-- What a type string of the tokens `ts` says. -/
structure Classified (ts : List Bytes) (info : KeyTypeInfo) : Prop where
  modes : info.modes = Flags.of modeTokens ts
  roles : info.roles = Flags.of roleTokens ts
  named : ∀ t ∈ ts, ∀ f, algorithmOf t = some f → info.family = f
  unnamed : (∀ t ∈ ts, algorithmOf t = none) → info.family = containerOf ts
  sized : ∀ fi ∈ keyFamilies, fi.family = info.family →
    info.pubkeyLen = fi.pubkeyLen ∧ info.sigMaxLen = fi.sigMaxLen ∧ info.sigDer = fi.sigDer
  unsized : info.family = .unknown → info.pubkeyLen = 0 ∧ info.sigMaxLen = 0 ∧ info.sigDer = false

theorem roles_cert (ts : List Bytes) : Flags.of roleTokens ts &&& keyRoleCert ≠ 0 ↔ lit "CERT" ∈ ts := by
  simp only [Flags.of, roleTokens]
  split_ifs <;> simp_all [keyRoleAtt, keyRolePkey, keyRoleCert, keyRoleGenericDer]

theorem roles_genericDer (ts : List Bytes) :
    Flags.of roleTokens ts &&& keyRoleGenericDer ≠ 0 ↔ lit "GENERIC_DER" ∈ ts := by
  simp only [Flags.of, roleTokens]
  split_ifs <;> simp_all [keyRoleAtt, keyRolePkey, keyRoleCert, keyRoleGenericDer]

theorem familyLookup_mem {fi : FamilyInfo} (h : fi ∈ keyFamilies) : familyLookup fi.family = some fi := by
  have hall : ∀ fi ∈ keyFamilies, familyLookup fi.family = some fi := by decide +kernel
  exact hall fi h

theorem familyLookup_unknown : familyLookup .unknown = none := by decide

/-- Filling in the sizes touches nothing else. -/
theorem fillSizes_kept (out : KeyTypeInfo) : (fillSizes out).family = out.family ∧
    (fillSizes out).modes = out.modes ∧ (fillSizes out).roles = out.roles := by
  unfold fillSizes
  split
  · exact ⟨rfl, rfl, rfl⟩
  · exact ⟨rfl, rfl, rfl⟩

theorem fillSizes_known {out : KeyTypeInfo} {fi : FamilyInfo} (hm : fi ∈ keyFamilies) (hf : fi.family = out.family) :
    (fillSizes out).pubkeyLen = fi.pubkeyLen ∧ (fillSizes out).sigMaxLen = fi.sigMaxLen ∧
      (fillSizes out).sigDer = fi.sigDer := by
  unfold fillSizes
  rw [← hf, familyLookup_mem hm]
  exact ⟨rfl, rfl, rfl⟩

theorem fillSizes_unknown {out : KeyTypeInfo} (hu : out.family = .unknown) : fillSizes out = out := by
  unfold fillSizes
  rw [hu, familyLookup_unknown]

/-- A container names the family only where no algorithm does. -/
theorem resolveContainer_eq {ts : List Bytes} {out : KeyTypeInfo} (hr : out.roles = Flags.of roleTokens ts) :
    resolveContainer out =
      { out with family := if out.family = .unknown then containerOf ts else out.family } := by
  unfold resolveContainer containerOf
  split
  · rename_i hu
    simp only [hr, roles_cert, roles_genericDer]
    split
    · rfl
    · split
      · rfl
      · rw [← hr, ← hu]
  · rfl

theorem Walked.classified {ts : List Bytes} {out : KeyTypeInfo} (h : Walked ts out) :
    Classified ts (fillSizes (resolveContainer out)) := by
  rw [resolveContainer_eq h.roles]
  generalize hres : ({ out with family := _ } : KeyTypeInfo) = res
  obtain ⟨hfam, hmodes, hroles⟩ := fillSizes_kept res
  constructor
  · rw [hmodes, ← hres, ← h.modes]
  · rw [hroles, ← hres, ← h.roles]
  · intro t ht f hf
    have hnamed := h.named t ht f hf
    rw [hfam, ← hres]
    dsimp only
    rw [if_neg (hnamed ▸ algorithmOf_known hf), hnamed]
  · intro hn
    rw [hfam, ← hres]
    dsimp only
    rw [if_pos (h.unnamed hn)]
  · intro fi hm hf
    exact fillSizes_known hm (hfam ▸ hf)
  · intro hu
    rw [fillSizes_unknown (hfam ▸ hu), ← hres]
    exact h.unsized

/-- Two token lists in which the same tokens are recognized say the same. -/
theorem Classified.unique {ts us : List Bytes} {i j : KeyTypeInfo} (hi : Classified ts i) (hj : Classified us j)
    (h : ∀ t, Recognized t → (t ∈ ts ↔ t ∈ us)) : i = j := by
  have hmode : ∀ f ∈ modeTokens, f.1 ∈ ts ↔ f.1 ∈ us := fun f hf =>
    h f.1 (.inl (List.mem_map_of_mem (List.mem_append_left _ hf)))
  have hrole : ∀ f ∈ roleTokens, f.1 ∈ ts ↔ f.1 ∈ us := fun f hf =>
    h f.1 (.inl (List.mem_map_of_mem (List.mem_append_right _ hf)))
  have hcert : lit "CERT" ∈ ts ↔ lit "CERT" ∈ us := hrole (_, keyRoleCert) (by decide)
  have hder : lit "GENERIC_DER" ∈ ts ↔ lit "GENERIC_DER" ∈ us := hrole (_, keyRoleGenericDer) (by decide)
  have halg : ∀ t f, algorithmOf t = some f → (t ∈ ts ↔ t ∈ us) := fun t f hf =>
    h t (.inr (by rw [hf]; rfl))
  have hfam : i.family = j.family := by
    by_cases hn : ∀ t ∈ ts, algorithmOf t = none
    · have hn' : ∀ t ∈ us, algorithmOf t = none := by
        intro t ht
        cases ha : algorithmOf t with
        | none => rfl
        | some f =>
          rw [← ha]
          exact hn t ((halg t f ha).mpr ht)
      rw [hi.unnamed hn, hj.unnamed hn']
      simp only [containerOf, hcert, hder]
    · push Not at hn
      obtain ⟨t, ht, hne⟩ := hn
      obtain ⟨f, hf⟩ := Option.ne_none_iff_exists'.mp hne
      rw [hi.named t ht f hf, hj.named t ((halg t f hf).mp ht) f hf]
  have hsizes : i.pubkeyLen = j.pubkeyLen ∧ i.sigMaxLen = j.sigMaxLen ∧ i.sigDer = j.sigDer := by
    have hall : ∀ f : KeyFamily, f = .unknown ∨ ∃ fi ∈ keyFamilies, fi.family = f := by
      intro f
      cases f <;> decide +kernel
    rcases hall i.family with hu | ⟨fi, hm, hf⟩
    · obtain ⟨h1, h2, h3⟩ := hi.unsized hu
      obtain ⟨k1, k2, k3⟩ := hj.unsized (hfam ▸ hu)
      exact ⟨h1.trans k1.symm, h2.trans k2.symm, h3.trans k3.symm⟩
    · obtain ⟨h1, h2, h3⟩ := hi.sized fi hm hf
      obtain ⟨k1, k2, k3⟩ := hj.sized fi hm (hf.trans hfam)
      exact ⟨h1.trans k1.symm, h2.trans k2.symm, h3.trans k3.symm⟩
  obtain ⟨h1, h2, h3⟩ := hsizes
  have hmodes := hi.modes.trans ((Flags.of_congr hmode).trans hj.modes.symm)
  have hroles := hi.roles.trans ((Flags.of_congr hrole).trans hj.roles.symm)
  cases i
  cases j
  simp_all

theorem keyTypeParse_join {ts : List Bytes} (ht : ∀ t ∈ ts, IsToken t) (hone : OneAlgorithm ts) (out : KeyTypeInfo) :
    ∃ info, keyTypeParse (some (join 44 ts)) (some out) = (.ok (), some info) ∧ Classified ts info := by
  refine ⟨_, ?_, (Walked.all hone).classified⟩
  unfold keyTypeParse
  dsimp only
  rw [cstr_join ht, keyTypeWalk_join ht (Nat.lt_succ_self _)]

theorem OneAlgorithm.of_recognized {ts us : List Bytes} (h : OneAlgorithm ts)
    (hr : ∀ t, Recognized t → (t ∈ ts ↔ t ∈ us)) : OneAlgorithm us := by
  intro t ht u hu ha hb
  exact h t ((hr t (.inr ha)).mpr ht) u ((hr u (.inr hb)).mpr hu) ha hb

/-- A type string with one algorithm at most is classified by which of its tokens are recognized,
each of them in full: not by their order, not by how often they occur and not by what else there is,
empty tokens included. -/
theorem key_type_of_tokens (ts : List Bytes) (ht : ∀ t ∈ ts, IsToken t) (hone : OneAlgorithm ts) :
    ∃ info, Classified ts info ∧
      (∀ out, keyTypeParse (some (join 44 ts)) (some out) = (.ok (), some info)) ∧
      (∀ us, (∀ u ∈ us, IsToken u) → (∀ t, Recognized t → (t ∈ ts ↔ t ∈ us)) →
        ∀ out, keyTypeParse (some (join 44 us)) (some out) = (.ok (), some info)) ∧
      (∀ t rest l, tokIs (t ++ rest) t.length l = true ↔ t = l) := by
  obtain ⟨info, -, hinfo⟩ := keyTypeParse_join ht hone .zero
  have hsame : ∀ us, (∀ u ∈ us, IsToken u) → (∀ t, Recognized t → (t ∈ ts ↔ t ∈ us)) →
      ∀ out, keyTypeParse (some (join 44 us)) (some out) = (.ok (), some info) := by
    intro us hu hr out
    obtain ⟨info', hp, hinfo'⟩ := keyTypeParse_join hu (hone.of_recognized hr) out
    rw [hp, hinfo.unique hinfo' hr]
  exact ⟨info, hinfo, fun out => hsame ts ht (fun _ _ => Iff.rfl) out, hsame, fun _ _ _ => tokIs_iff⟩

/-- A certificate role beside an algorithm that is named twice, an empty token and an unknown one. -/
theorem key_type_ed25519 : ∃ info, (∀ out,
      keyTypeParse (some (lit "CERT,ED25519,,NEWFLAG,ExDSA,ED25519")) (some out) = (.ok (), some info)) ∧
    info.family = .ed25519 ∧ info.modes = keyModeExdsa ∧ info.roles = keyRoleCert ∧ info.sigMaxLen = 64 := by
  obtain ⟨info, hinfo, hparse, -⟩ := key_type_of_tokens
    [lit "CERT", lit "ED25519", [], lit "NEWFLAG", lit "ExDSA", lit "ED25519"] (by decide) (by decide +kernel)
  have hfam : info.family = .ed25519 := hinfo.named (lit "ED25519") (by decide) .ed25519 (by decide +kernel)
  refine ⟨info, hparse, hfam, hinfo.modes, hinfo.roles, ?_⟩
  exact (hinfo.sized ⟨lit "ED25519", .ed25519, 32, 64, false⟩ (by decide +kernel) hfam.symm).right.left

theorem keyFamilyStr_named {f : KeyFamily} (h : f ≠ .unknown) : IsToken (keyFamilyStr f) ∧
    (algorithmOf (keyFamilyStr f) = some f ∨ (f = .cert ∧ keyFamilyStr f = lit "CERT")) := by
  revert h
  cases f <;> decide

/-- A family's display name is a type string of the family. -/
theorem keyFamilyStr_parse {f : KeyFamily} (h : f ≠ .unknown) (out : KeyTypeInfo) :
    ∃ info, keyTypeParse (some (keyFamilyStr f)) (some out) = (.ok (), some info) ∧ info.family = f := by
  obtain ⟨htok, hname⟩ := keyFamilyStr_named h
  have hone : OneAlgorithm [keyFamilyStr f] := by
    intro t ht u hu _ _
    rw [List.mem_singleton.mp ht, List.mem_singleton.mp hu]
  obtain ⟨info, hp, hinfo⟩ := keyTypeParse_join (List.forall_mem_singleton.mpr htok) hone out
  have hj : join 44 [keyFamilyStr f] = keyFamilyStr f := by simp
  rw [hj] at hp
  refine ⟨info, hp, ?_⟩
  rcases hname with ha | ⟨rfl, hc⟩
  · exact hinfo.named _ List.mem_cons_self f ha
  · rw [hinfo.unnamed (List.forall_mem_singleton.mpr (by rw [hc]; decide)), hc]
    decide

end EncedoHem
