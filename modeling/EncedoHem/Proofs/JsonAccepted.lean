import EncedoHem.Proofs.JsonRound

namespace EncedoHem
open Text Double

section
variable {b r : Bytes}

theorem skipWhitespace_append (hne : skipWhitespace b ≠ []) (t : Bytes) :
    skipWhitespace (b ++ t) = skipWhitespace b ++ t := by
  unfold skipWhitespace at *
  rw [List.dropWhile_append]
  simp [hne]

theorem whitespace_ended {c : UInt8} (h : c ≤ 32) : isNumberByte c = false := by
  have hle := UInt8.le_iff_toNat_le.mp h
  have hne : ∀ d : UInt8, 32 < d.toNat → c ≠ d := by
    rintro d hd rfl
    exact absurd hle (Nat.not_le.mpr hd)
  have hdigit : isDigit c = false := by
    simp only [isDigit, decide_eq_false_iff_not, not_and_or]
    left
    intro hlo
    have := UInt8.le_iff_toNat_le.mp hlo
    simp at this hle
    omega
  simp [isNumberByte, hdigit, hne 43 (by decide), hne 45 (by decide), hne 101 (by decide), hne 69 (by decide),
    hne 46 (by decide)]

/-- A comma or a closing bracket, after white space, ends a number. -/
theorem ended_of_skip {c : UInt8} {u : Bytes} (h : skipWhitespace r = c :: u) (hc : isNumberByte c = false) (t : Bytes) :
    Ended (r ++ t) := by
  cases r with
  | nil => cases h
  | cons d r =>
    apply Ended.cons
    by_cases hd : d ≤ 32
    · exact whitespace_ended hd
    · have hskip : skipWhitespace (d :: r) = d :: r := skipWhitespace_cons (UInt8.not_le.mp hd) r
      rw [hskip] at h
      rw [(List.cons.inj h).1]
      exact hc

/-- What a parser hands out is well formed and as deep as allowed, and what comes behind the text it took is
neither looked at nor lost, with more fuel and at another depth as well. -/
structure Recognises {β : Type} (p : Nat → Nat → Bytes → Option (β × Bytes)) (deep : β → Nat) (clean : β → Prop)
    (loose : β → Prop) (fuel : Nat) : Prop where
  run : ∀ depth b x r, depth ≤ nestingLimit → p fuel depth b = some (x, r) →
    clean x ∧ depth + deep x ≤ nestingLimit ∧
      ∀ fuel' depth' t, fuel ≤ fuel' → depth' ≤ nestingLimit → (loose x → Ended (r ++ t)) →
        p fuel' depth' (b ++ t) = if depth' + deep x ≤ nestingLimit then some (x, r ++ t) else none

end

section
variable {β γ : Type} {deep : β → Nat} {clean loose : β → Prop} {deepAll : List β → Nat} {cleanAll : List β → Prop}

/-- A parser of what stands in brackets. -/
structure Bracketed (p : Nat → Nat → Bytes → Option (Json × Bytes)) (inner : Nat → Nat → Bytes → Option (List β × Bytes))
    (mk : List β → Json) (k : UInt8) : Prop where
  deepest : ∀ fuel depth b, nestingLimit ≤ depth → p (fuel + 1) depth b = none
  empty : ∀ fuel depth b, depth < nestingLimit → skipWhitespace b = [] → p (fuel + 1) depth b = none
  closed : ∀ fuel depth b rest, depth < nestingLimit → skipWhitespace b = k :: rest →
    p (fuel + 1) depth b = some (mk [], rest)
  opened : ∀ fuel depth b c rest, depth < nestingLimit → skipWhitespace b = c :: rest → c ≠ k →
    p (fuel + 1) depth b = (inner fuel (depth + 1) (c :: rest)).map fun q => (mk q.1, q.2)

/-- A parser of items with commas between them. -/
structure Listed (seq : Nat → Nat → Bytes → Option (List β × Bytes)) (item : Nat → Nat → Bytes → Option (β × Bytes))
    (k : UInt8) : Prop where
  empty : ∀ fuel depth, seq fuel depth [] = none
  failed : ∀ fuel depth b, item fuel depth b = none → seq (fuel + 1) depth b = none
  more : ∀ fuel depth b x r rest, item fuel depth b = some (x, r) → skipWhitespace r = 44 :: rest →
    seq (fuel + 1) depth b = (seq fuel depth (skipWhitespace rest)).map fun q => (x :: q.1, q.2)
  last : ∀ fuel depth b x r rest, item fuel depth b = some (x, r) → skipWhitespace r = k :: rest →
    seq (fuel + 1) depth b = some ([x], rest)
  other : ∀ fuel depth b x r, item fuel depth b = some (x, r) →
    (∀ rest, skipWhitespace r ≠ 44 :: rest ∧ skipWhitespace r ≠ k :: rest) → seq (fuel + 1) depth b = none
  ends : isNumberByte k = false

theorem skipWhitespace_more {b u : Bytes} {c : UInt8} (h : skipWhitespace b = c :: u) (t : Bytes) :
    skipWhitespace (b ++ t) = c :: (u ++ t) := by
  rw [skipWhitespace_append (by simp [h]), h]
  rfl

theorem Bracketed.accepts {p : Nat → Nat → Bytes → Option (Json × Bytes)}
    {inner : Nat → Nat → Bytes → Option (List β × Bytes)} {mk : List β → Json} {k : UInt8} {fuel : Nat}
    (hp : Bracketed p inner mk k) (hi : Recognises inner deepAll cleanAll (fun _ => False) fuel)
    (hnil : deepAll [] = 0 ∧ cleanAll []) (hdeep : ∀ xs, (mk xs).depth = deepAll xs + 1)
    (hclean : ∀ xs, cleanAll xs → (mk xs).Clean) : Recognises p Json.depth Json.Clean (fun _ => False) (fuel + 1) := by
  refine ⟨fun depth b v r hd hv => ?_⟩
  by_cases hlim : nestingLimit ≤ depth
  · rw [hp.deepest fuel depth b hlim] at hv
    cases hv
  have hlt : depth < nestingLimit := by omega
  cases hskip : skipWhitespace b with
  | nil =>
    rw [hp.empty fuel depth b hlt hskip] at hv
    cases hv
  | cons c rest =>
    have hmore := skipWhitespace_more hskip
    by_cases hc : c = k
    · subst hc
      rw [hp.closed fuel depth b rest hlt hskip] at hv
      obtain ⟨rfl, rfl⟩ := Prod.mk.inj (Option.some.inj hv)
      refine ⟨hclean [] hnil.2, by rw [hdeep, hnil.1]; omega, fun fuel' depth' t hf hd' _ => ?_⟩
      obtain ⟨n, rfl⟩ : ∃ n, fuel' = n + 1 := ⟨fuel' - 1, by omega⟩
      rw [hdeep, hnil.1]
      by_cases hlim' : nestingLimit ≤ depth'
      · rw [hp.deepest n depth' _ hlim', if_neg (by omega)]
      · rw [hp.closed n depth' _ _ (by omega) (hmore t), if_pos (by omega)]
    · rw [hp.opened fuel depth b c rest hlt hskip hc] at hv
      obtain ⟨⟨xs, u⟩, hxs, he⟩ := Option.map_eq_some_iff.mp hv
      obtain ⟨rfl, rfl⟩ := Prod.mk.inj he
      dsimp only
      obtain ⟨hcl, hdp, hread⟩ := hi.run (depth + 1) _ xs u (by omega) hxs
      refine ⟨hclean xs hcl, by rw [hdeep]; omega, fun fuel' depth' t hf hd' _ => ?_⟩
      obtain ⟨n, rfl⟩ : ∃ n, fuel' = n + 1 := ⟨fuel' - 1, by omega⟩
      rw [hdeep]
      by_cases hlim' : nestingLimit ≤ depth'
      · rw [hp.deepest n depth' _ hlim', if_neg (by omega)]
      · have hxs' := hread n (depth' + 1) t (by omega) (by omega) False.elim
        rw [hp.opened n depth' _ c _ (by omega) (hmore t) hc, ← List.cons_append, hxs']
        by_cases hall : depth' + (deepAll xs + 1) ≤ nestingLimit
        · rw [if_pos hall, if_pos (by omega)]
          rfl
        · rw [if_neg hall, if_neg (by omega)]
          rfl

theorem Listed.accepts {seq : Nat → Nat → Bytes → Option (List β × Bytes)}
    {item : Nat → Nat → Bytes → Option (β × Bytes)} {k : UInt8} {fuel : Nat} (hq : Listed seq item k)
    (hi : Recognises item deep clean loose fuel) (hs : Recognises seq deepAll cleanAll (fun _ => False) fuel)
    (hnil : deepAll [] = 0 ∧ cleanAll []) (hdeep : ∀ x xs, deepAll (x :: xs) = max (deep x) (deepAll xs))
    (hclean : ∀ x xs, clean x → cleanAll xs → cleanAll (x :: xs)) :
    Recognises seq deepAll cleanAll (fun _ => False) (fuel + 1) := by
  refine ⟨fun depth b xs r hd hxs => ?_⟩
  cases hx : item fuel depth b with
  | none =>
    rw [hq.failed fuel depth b hx] at hxs
    cases hxs
  | some p =>
    obtain ⟨x, u⟩ := p
    obtain ⟨hcx, hdx, hread⟩ := hi.run depth b x u hd hx
    by_cases hcomma : ∃ rest, skipWhitespace u = 44 :: rest
    · obtain ⟨rest, hskip⟩ := hcomma
      rw [hq.more fuel depth b x u rest hx hskip] at hxs
      obtain ⟨⟨ys, w⟩, hys, he⟩ := Option.map_eq_some_iff.mp hxs
      obtain ⟨rfl, rfl⟩ := Prod.mk.inj he
      dsimp only
      have hne : skipWhitespace rest ≠ [] := by
        intro hnone
        rw [hnone, hq.empty] at hys
        cases hys
      obtain ⟨hcy, hdy, hmore⟩ := hs.run depth _ ys w hd hys
      refine ⟨hclean x ys hcx hcy, by rw [hdeep]; omega, fun fuel' depth' t hf hd' _ => ?_⟩
      obtain ⟨n, rfl⟩ : ∃ n, fuel' = n + 1 := ⟨fuel' - 1, by omega⟩
      have hitem := hread n depth' t (by omega) hd' fun _ => ended_of_skip hskip (by decide) t
      have htail := hmore n depth' t (by omega) hd' False.elim
      rw [hdeep]
      by_cases hx' : depth' + deep x ≤ nestingLimit
      · rw [if_pos hx'] at hitem
        rw [hq.more n depth' _ x _ _ hitem (skipWhitespace_more hskip t), skipWhitespace_append hne, htail]
        by_cases hall : depth' + deepAll ys ≤ nestingLimit
        · rw [if_pos hall, if_pos (by omega)]
          rfl
        · rw [if_neg hall, if_neg (by omega)]
          rfl
      · rw [if_neg hx'] at hitem
        rw [hq.failed n depth' _ hitem, if_neg (by omega)]
    · by_cases hend : ∃ rest, skipWhitespace u = k :: rest
      · obtain ⟨rest, hskip⟩ := hend
        rw [hq.last fuel depth b x u rest hx hskip] at hxs
        obtain ⟨rfl, rfl⟩ := Prod.mk.inj (Option.some.inj hxs)
        refine ⟨hclean x [] hcx hnil.2, by rw [hdeep, hnil.1]; omega, fun fuel' depth' t hf hd' _ => ?_⟩
        obtain ⟨n, rfl⟩ : ∃ n, fuel' = n + 1 := ⟨fuel' - 1, by omega⟩
        have hitem := hread n depth' t (by omega) hd' fun _ => ended_of_skip hskip hq.ends t
        rw [hdeep, hnil.1, Nat.max_zero]
        by_cases hx' : depth' + deep x ≤ nestingLimit
        · rw [if_pos hx'] at hitem ⊢
          exact hq.last n depth' _ x _ _ hitem (skipWhitespace_more hskip t)
        · rw [if_neg hx'] at hitem ⊢
          exact hq.failed n depth' _ hitem
      · rw [hq.other fuel depth b x u hx fun rest => ⟨fun h => hcomma ⟨rest, h⟩, fun h => hend ⟨rest, h⟩⟩] at hxs
        cases hxs

end

section
variable {fuel : Nat}

end

end EncedoHem
