import Mathlib.Data.List.DropRight

namespace Words
section
variable {α : Type} (blank : α → Bool) (sep : α)

/-- Every run of blanks becomes one separator. -/
def collapse : List α → List α
  | [] => []
  | c :: cs => if blank c then sep :: (collapse cs).dropWhile blank else c :: collapse cs

def trim (cs : List α) : List α := (cs.dropWhile blank).rdropWhile blank

/-- The text with single separators between its words and none around them. -/
def normalForm (cs : List α) : List α := trim blank (collapse blank sep cs)

/-- At most `n` words of a text: what stands between its runs of blanks. -/
def split : Nat → List α → List (List α)
  | 0, _ => []
  | n + 1, cs =>
    match cs.dropWhile blank with
    | [] => []
    | start => start.takeWhile (fun c => !blank c) :: split n (start.dropWhile fun c => !blank c)

/-- Words with one separator between each two. -/
abbrev join (ws : List (List α)) : List α := [sep].intercalate ws

structure IsWord (w : List α) : Prop where
  nonempty : w ≠ []
  solid : ∀ c ∈ w, blank c = false

end

variable {α : Type} {blank : α → Bool} {sep : α}

theorem join_cons {w : List α} {ws : List (List α)} (h : ws ≠ []) :
    join sep (w :: ws) = w ++ sep :: join sep ws := by
  rw [join, List.intercalate_cons_of_ne_nil h, List.append_assoc]
  rfl

theorem join_concat (ws : List (List α)) (w : List α) :
    join sep (ws ++ [w]) = join sep ws ++ (if ws = [] then [] else [sep]) ++ w := by
  induction ws with
  | nil => simp
  | cons v ws ih =>
    rw [List.cons_append, join_cons (by simp), ih, if_neg (List.cons_ne_nil v ws)]
    cases ws with
    | nil => simp
    | cons u us =>
      rw [join_cons (List.cons_ne_nil u us), if_neg (List.cons_ne_nil u us)]
      simp

/-- Words of at most `k` letters leave room for one letter more. -/
theorem length_join {k : Nat} {ws : List (List α)} (h : ∀ w ∈ ws, w.length ≤ k) (hne : ws ≠ []) :
    (join sep ws).length + 1 ≤ (k + 1) * ws.length := by
  induction ws with
  | nil => exact absurd rfl hne
  | cons w ws ih =>
    have hw : w.length ≤ k := h w List.mem_cons_self
    cases ws with
    | nil => simpa using hw
    | cons v vs =>
      have hrest := ih (fun u hu => h u (List.mem_cons_of_mem w hu)) (List.cons_ne_nil v vs)
      rw [join_cons (List.cons_ne_nil v vs), List.length_append, List.length_cons,
        List.length_cons (a := w), Nat.mul_succ]
      omega

theorem dropWhile_solid {w rest : List α} (h : IsWord blank w) :
    (w ++ rest).dropWhile blank = w ++ rest := by
  cases w with
  | nil => exact absurd rfl h.nonempty
  | cons c w =>
    have hc : blank c = false := h.solid c List.mem_cons_self
    rw [List.cons_append, List.dropWhile_cons, hc]
    rfl

/-- A word and what follows it are told apart by the first blank. -/
theorem takeWhile_word {w rest : List α} (h : ∀ c ∈ w, blank c = false)
    (hr : ∀ c ∈ rest.head?, blank c = true) :
    (w ++ rest).takeWhile (fun c => !blank c) = w ∧
      (w ++ rest).dropWhile (fun c => !blank c) = rest := by
  have hw : ∀ c ∈ w, (!blank c) = true := fun c hc => by rw [h c hc]; rfl
  have hrest : rest.takeWhile (fun c => !blank c) = [] ∧ rest.dropWhile (fun c => !blank c) = rest := by
    cases rest with
    | nil => exact ⟨rfl, rfl⟩
    | cons c cs =>
      have hc : blank c = true := hr c rfl
      rw [List.takeWhile_cons, List.dropWhile_cons, hc]
      exact ⟨rfl, rfl⟩
  constructor
  · rw [List.takeWhile_append_of_pos hw, hrest.1, List.append_nil]
  · rw [List.dropWhile_append_of_pos hw, hrest.2]

/-- What is left after leading blanks is nothing, or a word and a rest that is empty or
starts with a blank. -/
theorem dropWhile_cases (blank : α → Bool) (cs : List α) : cs.dropWhile blank = [] ∨
    ∃ w rest, IsWord blank w ∧ (∀ c ∈ rest.head?, blank c = true) ∧ cs.dropWhile blank = w ++ rest := by
  generalize hs : cs.dropWhile blank = start
  cases start with
  | nil => exact .inl rfl
  | cons c rest =>
    have hc : blank c = false := by
      have h := List.head?_dropWhile_not blank cs
      rw [hs] at h
      simpa using h
    refine .inr ⟨(c :: rest).takeWhile (fun c => !blank c), (c :: rest).dropWhile (fun c => !blank c),
      ⟨?_, ?_⟩, ?_, (List.takeWhile_append_dropWhile).symm⟩
    · rw [List.takeWhile_cons, hc]
      exact List.cons_ne_nil _ _
    · intro d hd
      simpa using List.mem_takeWhile_imp hd
    · intro d hd
      have h := List.head?_dropWhile_not (fun c => !blank c) (c :: rest)
      rw [Option.mem_def.mp hd] at h
      simpa using h

theorem split_nil {n : Nat} {cs : List α} (h : cs.dropWhile blank = []) : split blank n cs = [] := by
  cases n with
  | zero => rfl
  | succ n => rw [split, h]

theorem split_word {n : Nat} {cs w rest : List α} (hw : IsWord blank w)
    (hr : ∀ c ∈ rest.head?, blank c = true) (h : cs.dropWhile blank = w ++ rest) :
    split blank (n + 1) cs = w :: split blank n rest := by
  have hne : w ++ rest ≠ [] := fun he => hw.nonempty (List.append_eq_nil_iff.mp he).1
  obtain ⟨htake, hdrop⟩ := takeWhile_word hw.solid hr
  rw [split, h]
  split
  · rename_i he
    exact absurd he hne
  · rw [htake, hdrop]

theorem split_isWord {n : Nat} {cs : List α} : ∀ w ∈ split blank n cs, IsWord blank w := by
  induction n generalizing cs with
  | zero => intro w hw; cases hw
  | succ n ih =>
    intro w hw
    rcases dropWhile_cases blank cs with h | ⟨v, rest, hv, hr, h⟩
    · rw [split_nil h] at hw
      cases hw
    · rw [split_word hv hr h] at hw
      rcases List.mem_cons.mp hw with rfl | hw
      · exact hv
      · exact ih w hw

theorem mem_of_mem_split {n : Nat} {cs w : List α} {c : α} (hw : w ∈ split blank n cs) (hc : c ∈ w) :
    c ∈ cs := by
  induction n generalizing cs with
  | zero => cases hw
  | succ n ih =>
    have hsuffix := List.dropWhile_suffix (l := cs) blank
    rcases dropWhile_cases blank cs with h | ⟨v, rest, hv, hr, h⟩
    · rw [split_nil h] at hw
      cases hw
    · rw [split_word hv hr h] at hw
      rw [h] at hsuffix
      rcases List.mem_cons.mp hw with rfl | hw
      · exact hsuffix.subset (List.mem_append_left rest hc)
      · exact hsuffix.subset (List.mem_append_right v (ih hw))

/-- Joined words come apart again. -/
theorem split_join (hsep : blank sep = true) {ws : List (List α)} (hw : ∀ w ∈ ws, IsWord blank w)
    {n : Nat} (hn : ws.length ≤ n) : split blank n (join sep ws) = ws := by
  induction ws generalizing n with
  | nil => exact split_nil rfl
  | cons w ws ih =>
    obtain ⟨m, rfl⟩ := Nat.exists_eq_succ_of_ne_zero (n := n) (by simp at hn; omega)
    have hword := hw w List.mem_cons_self
    have hrest := ih (fun v hv => hw v (List.mem_cons_of_mem w hv)) (Nat.le_of_succ_le_succ hn)
    cases ws with
    | nil =>
      have h := @dropWhile_solid _ _ _ [] hword
      rw [List.append_nil] at h
      rw [join, List.intercalate_singleton]
      exact (split_word hword (by simp) (h.trans (List.append_nil w).symm)).trans (by rw [split_nil rfl])
    | cons v vs =>
      have hskip : split blank m (sep :: join sep (v :: vs)) = split blank m (join sep (v :: vs)) := by
        cases m with
        | zero => rfl
        | succ m => rw [split, split, List.dropWhile_cons, if_pos hsep]
      rw [join_cons (List.cons_ne_nil v vs), split_word hword (by simpa using hsep) (dropWhile_solid hword),
        hskip, hrest]

theorem join_injective (hsep : blank sep = true) {ws vs : List (List α)}
    (hw : ∀ w ∈ ws, IsWord blank w) (hv : ∀ v ∈ vs, IsWord blank v) (h : join sep ws = join sep vs) :
    ws = vs := by
  rw [← split_join hsep hw (Nat.le_max_left ws.length vs.length), h,
    split_join hsep hv (Nat.le_max_right ws.length vs.length)]

theorem collapse_solid {w : List α} (rest : List α) (h : ∀ c ∈ w, blank c = false) :
    collapse blank sep (w ++ rest) = w ++ collapse blank sep rest := by
  induction w with
  | nil => rfl
  | cons c w ih =>
    have hc : blank c = false := h c List.mem_cons_self
    rw [List.cons_append, collapse, hc, ih fun d hd => h d (List.mem_cons_of_mem c hd)]
    rfl

/-- Leading blanks are lost before or after. -/
theorem dropWhile_collapse (hsep : blank sep = true) (cs : List α) :
    (collapse blank sep cs).dropWhile blank = collapse blank sep (cs.dropWhile blank) := by
  induction cs with
  | nil => rfl
  | cons c cs ih =>
    cases hc : blank c with
    | true =>
      rw [collapse, hc, if_pos rfl, List.dropWhile_cons, if_pos hsep, List.dropWhile_cons, if_pos hc,
        List.dropWhile_idempotent, ih]
    | false =>
      have hcs : collapse blank sep (c :: cs) = c :: collapse blank sep cs := by
        rw [collapse, hc]
        rfl
      simp only [hcs, List.dropWhile_cons, hc, Bool.false_eq_true, if_false]

theorem collapse_blank (hsep : blank sep = true) {c : α} (hc : blank c = true) (cs : List α) :
    collapse blank sep (c :: cs) = sep :: collapse blank sep ((c :: cs).dropWhile blank) := by
  rw [collapse, if_pos hc, dropWhile_collapse hsep, List.dropWhile_cons, if_pos hc]

/-- Behind its leading blanks a collapsed text is its words, and perhaps one separator. -/
theorem collapse_split (hsep : blank sep = true) {n : Nat} {cs : List α} (hn : cs.length < n) :
    ∃ t, collapse blank sep (cs.dropWhile blank) = join sep (split blank n cs) ++ t ∧
      (∀ c ∈ t, blank c = true) ∧ (split blank n cs = [] → t = []) := by
  induction n generalizing cs with
  | zero => exact absurd hn (Nat.not_lt_zero _)
  | succ n ih =>
    rcases dropWhile_cases blank cs with h | ⟨w, rest, hw, hr, h⟩
    · rw [split_nil h, h]
      exact ⟨[], rfl, by simp, fun _ => rfl⟩
    · rw [split_word hw hr h, h, collapse_solid rest hw.solid]
      cases rest with
      | nil =>
        rw [split_nil rfl]
        exact ⟨[], by simp [collapse], by simp, fun _ => rfl⟩
      | cons c rest =>
        have hlen : (c :: rest).length < n := by
          have h1 := List.length_dropWhile_le blank cs
          have h2 := List.length_pos_iff.mpr hw.nonempty
          rw [h, List.length_append] at h1
          omega
        obtain ⟨t, ht, hb, hnil⟩ := ih hlen
        rw [collapse_blank hsep (hr c rfl), ht]
        by_cases hs : split blank n (c :: rest) = []
        · rw [hs, hnil hs]
          exact ⟨[sep], by simp, by simpa using hsep, fun hc => absurd hc (List.cons_ne_nil _ _)⟩
        · rw [join_cons hs]
          exact ⟨t, by simp, hb, fun hc => absurd hc (List.cons_ne_nil _ _)⟩

theorem join_last {ws : List (List α)} (hw : ∀ w ∈ ws, IsWord blank w) (hne : ws ≠ []) :
    ∃ front c, join sep ws = front ++ [c] ∧ blank c = false := by
  obtain ⟨front, w, rfl⟩ := (List.eq_nil_or_concat ws).resolve_left hne
  have hword := hw w (by simp)
  obtain ⟨v, c, rfl⟩ := (List.eq_nil_or_concat w).resolve_left hword.nonempty
  refine ⟨join sep front ++ (if front = [] then [] else [sep]) ++ v, c, ?_, hword.solid c (by simp)⟩
  rw [List.concat_eq_append, join_concat]
  simp

/-- The normal form of a text is its words with single separators. -/
theorem normalForm_eq (hsep : blank sep = true) {n : Nat} {cs : List α} (hn : cs.length < n) :
    normalForm blank sep cs = join sep (split blank n cs) := by
  obtain ⟨t, ht, hb, hnil⟩ := collapse_split hsep hn
  unfold normalForm trim
  rw [dropWhile_collapse hsep, ht]
  by_cases hs : split blank n cs = []
  · rw [hs, hnil hs]
    rfl
  · obtain ⟨front, c, hj, hc⟩ := @join_last _ _ sep _ split_isWord hs
    have htail : (front ++ [c] ++ t).rdropWhile blank = front ++ [c] := by
      rw [List.rdropWhile, List.reverse_append, List.dropWhile_append_of_pos (by simpa using hb),
        List.reverse_append]
      simp [hc]
    rw [hj, htail]

/-- Joined words are in normal form. -/
theorem normalForm_join (hsep : blank sep = true) {ws : List (List α)} (hw : ∀ w ∈ ws, IsWord blank w) :
    normalForm blank sep (join sep ws) = join sep ws := by
  have hn : (join sep ws).length < max ((join sep ws).length + 1) ws.length :=
    Nat.lt_of_lt_of_le (Nat.lt_succ_self _) (Nat.le_max_left ..)
  rw [normalForm_eq hsep hn, split_join hsep hw (Nat.le_max_right ..)]

theorem mem_join {c : α} {ws : List (List α)} (h : c ∈ join sep ws) : c = sep ∨ ∃ w ∈ ws, c ∈ w := by
  induction ws with
  | nil => cases h
  | cons w ws ih =>
    by_cases hne : ws = []
    · rw [hne, join, List.intercalate_singleton] at h
      exact .inr ⟨w, List.mem_cons_self, h⟩
    · rw [join_cons hne, List.mem_append, List.mem_cons] at h
      rcases h with h | h | h
      · exact .inr ⟨w, List.mem_cons_self, h⟩
      · exact .inl h
      · rcases ih h with h | ⟨v, hv, hc⟩
        · exact .inl h
        · exact .inr ⟨v, List.mem_cons_of_mem w hv, hc⟩

end Words
