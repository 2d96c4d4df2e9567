import Mathlib.Data.List.Infix
import Mathlib.Data.List.Basic
import Mathlib.Logic.Function.Basic
import Mathlib.Tactic.Common
import Mathlib.Tactic.Ring

/-!
Searching a text for a pattern, replacing its occurrences, and substituting escape
sequences in one pass.

A text is a list of symbols. `replaceAll` cuts a text at the left-to-right occurrences of a
pattern and joins the pieces; `expand` reads a text once and replaces every escape sequence
by its value. The second half compares one pass of `expand` with a sequence of replacement
passes, one for each escape sequence.
-/

namespace Text

variable {α : Type*} [DecidableEq α]

/-- The first position at which `p` stands in the text, positions counted from `i`. -/
def findAt (p : List α) : List α → ℕ → Option ℕ
  | [], i => if p = [] then some i else none
  | a :: s, i => if p <+: a :: s then some i else findAt p s (i + 1)

/-- The first position from `pos` on at which `p` stands in `s`. -/
def find (s p : List α) (pos : ℕ) : Option ℕ :=
  if pos ≤ s.length then findAt p (s.drop pos) pos else none

/-- The pieces of a text between the occurrences of `p`, read from left to right. The first
argument is the number of symbols still to be skipped. -/
def pieces (p : List α) : ℕ → List α → List (List α)
  | _, [] => [[]]
  | 0, a :: s =>
    if p <+: a :: s then [] :: pieces p (p.length - 1) s
    else (pieces p 0 s).modifyHead (a :: ·)
  | k + 1, _ :: s => pieces p k s

def split (p s : List α) : List (List α) := pieces p 0 s

/-- The text with the left-to-right occurrences of `p` replaced by `v`. -/
def replaceAll (p v s : List α) : List α := v.intercalate (split p s)

/-- The number of positions at which `p` stands. -/
def count (p : List α) : List α → ℕ
  | [] => 0
  | a :: s => (if p <+: a :: s then 1 else 0) + count p s

/-! ### Searching -/

lemma findAt_none {p : List α} {s : List α} {i : ℕ} (h : findAt p s i = none) :
    ∀ j, ¬ p <+: s.drop j := by
  induction s generalizing i with
  | nil =>
    intro j hj
    simp only [findAt, ite_eq_right_iff, reduceCtorEq, imp_false] at h
    exact h (by simpa using hj)
  | cons a s ih =>
    simp only [findAt] at h
    split at h
    · exact absurd h (by simp)
    · next hp =>
      intro j
      cases j with
      | zero => simpa using hp
      | succ j => simpa using ih h j

lemma findAt_some {p : List α} {s : List α} {i k : ℕ} (h : findAt p s i = some k) :
    ∃ x t, s = x ++ (p ++ t) ∧ k = i + x.length ∧ ∀ l < x.length, ¬ p <+: s.drop l := by
  induction s generalizing i with
  | nil =>
    simp only [findAt] at h
    split at h
    · next hp => exact ⟨[], [], by simp [hp], by simpa using h.symm, by simp⟩
    · exact absurd h (by simp)
  | cons a s ih =>
    simp only [findAt] at h
    split at h
    · next hp =>
      obtain ⟨t, ht⟩ := hp
      exact ⟨[], t, ht.symm, by simpa using h.symm, by simp⟩
    · next hp =>
      obtain ⟨x, t, hs, hk, hlt⟩ := ih h
      refine ⟨a :: x, t, by rw [hs, List.cons_append], by simp only [List.length_cons]; omega,
        fun l hl => ?_⟩
      cases l with
      | zero => exact hp
      | succ l => exact hlt l (by simpa using hl)

lemma findAt_eq_none_iff {p : List α} {s : List α} {i : ℕ} (hp : p ≠ []) :
    findAt p s i = none ↔ count p s = 0 := by
  induction s generalizing i with
  | nil => simp [findAt, count, hp]
  | cons a s ih =>
    by_cases h : p <+: a :: s
    · simp [findAt, count, h]
    · simp [findAt, count, h, ih]

lemma find_zero_eq_none_iff {p s : List α} (hp : p ≠ []) :
    find s p 0 = none ↔ count p s = 0 := by
  simp [find, findAt_eq_none_iff hp]

/-! ### Replacing -/

lemma pieces_skip (p : List α) (k : ℕ) (s : List α) : pieces p k s = pieces p 0 (s.drop k) := by
  induction k generalizing s with
  | zero => simp
  | succ k ih =>
    cases s with
    | nil => simp [pieces]
    | cons a s => simpa [pieces] using ih s

@[simp] lemma split_nil (p : List α) : split p [] = [[]] := by simp [split, pieces]

lemma split_append {p : List α} (hp : p ≠ []) (s : List α) :
    split p (p ++ s) = [] :: split p s := by
  obtain ⟨a, q, rfl⟩ := List.exists_cons_of_ne_nil hp
  have hpre : a :: q <+: a :: (q ++ s) := ⟨s, rfl⟩
  rw [split, List.cons_append, pieces, if_pos hpre, pieces_skip]
  simp [split]

lemma split_cons {p : List α} {a : α} {s : List α} (h : ¬ p <+: a :: s) :
    split p (a :: s) = (split p s).modifyHead (a :: ·) := by
  simp [split, pieces, h]

lemma split_ne_nil (p s : List α) : split p s ≠ [] := by
  unfold split
  generalize 0 = k
  induction s generalizing k with
  | nil => simp [pieces]
  | cons a s ih =>
    cases k with
    | zero =>
      simp only [pieces]
      split
      · simp
      · simpa using ih 0
    | succ k => simpa [pieces] using ih k

@[simp] lemma replaceAll_nil (p v : List α) : replaceAll p v [] = [] := by
  simp [replaceAll]

lemma replaceAll_append {p : List α} (hp : p ≠ []) (v s : List α) :
    replaceAll p v (p ++ s) = v ++ replaceAll p v s := by
  rw [replaceAll, split_append hp]
  obtain ⟨x, xs, hx⟩ := List.exists_cons_of_ne_nil (split_ne_nil p s)
  simp [replaceAll, hx, List.intercalate]

lemma replaceAll_cons {p : List α} {a : α} {s : List α} (h : ¬ p <+: a :: s) (v : List α) :
    replaceAll p v (a :: s) = a :: replaceAll p v s := by
  rw [replaceAll, split_cons h]
  obtain ⟨x, xs, hx⟩ := List.exists_cons_of_ne_nil (split_ne_nil p s)
  cases xs <;> simp [replaceAll, hx, List.intercalate]

/-- Symbols before the first occurrence are copied. -/
lemma replaceAll_skip {p : List α} (v x s : List α)
    (h : ∀ l < x.length, ¬ p <+: (x ++ s).drop l) :
    replaceAll p v (x ++ s) = x ++ replaceAll p v s := by
  induction x with
  | nil => rfl
  | cons a x ih =>
    have ha : ¬ p <+: a :: (x ++ s) := h 0 (by simp)
    have hrest := ih fun l hl => h (l + 1) (by simpa using hl)
    rw [List.cons_append, replaceAll_cons ha, hrest, List.cons_append]

/-! ### The pieces -/

/-- The text is `ps`, with an occurrence of `p` after each of them but the last, and the first
occurrence in what is left each time. -/
inductive Cut (p : List α) : List α → List (List α) → Prop
  | last {s : List α} (h : ∀ l, ¬ p <+: s.drop l) : Cut p s [s]
  | next {x s : List α} {ps : List (List α)} (h : ∀ l < x.length, ¬ p <+: (x ++ (p ++ s)).drop l)
      (hs : Cut p s ps) : Cut p (x ++ (p ++ s)) (x :: ps)

omit [DecidableEq α] in
lemma Cut.ne_nil {p s : List α} {ps : List (List α)} (h : Cut p s ps) : ps ≠ [] := by
  cases h <;> simp

omit [DecidableEq α] in
/-- A symbol at which `p` does not begin belongs to the first piece. -/
lemma Cut.cons {p s : List α} {ps : List (List α)} (h : Cut p s ps) {a : α}
    (ha : ¬ p <+: a :: s) : Cut p (a :: s) (ps.modifyHead (a :: ·)) := by
  cases h with
  | last h =>
    refine Cut.last fun l => ?_
    cases l with
    | zero => exact ha
    | succ l => exact h l
  | @next x s ps h hs =>
    refine Cut.next (x := a :: x) (fun l hl => ?_) hs
    cases l with
    | zero => exact ha
    | succ l => exact h l (by simpa using hl)

/-- The pieces that `split` reads off are those. -/
lemma cut_split {p : List α} (hp : p ≠ []) (s : List α) : Cut p s (split p s) := by
  induction hn : s.length using Nat.strong_induction_on generalizing s with
  | _ n ih =>
    cases s with
    | nil =>
      rw [split_nil]
      exact Cut.last fun l h => hp (by simpa using h)
    | cons a s =>
      by_cases ha : p <+: a :: s
      · obtain ⟨t, ht⟩ := ha
        have hlen : 0 < p.length := List.length_pos_iff.mpr hp
        have hshort : t.length < n := by
          have := congrArg List.length ht
          simp only [List.length_append] at this
          omega
        rw [← ht, split_append hp]
        exact Cut.next (x := []) (fun l hl => absurd hl (Nat.not_lt_zero l)) (ih _ hshort t rfl)
      · rw [split_cons ha]
        exact (ih s.length (by simp at hn; omega) s rfl).cons ha

/-- Up to the first occurrence nothing is cut. -/
lemma split_skip {p : List α} (x s : List α) (h : ∀ l < x.length, ¬ p <+: (x ++ s).drop l) :
    split p (x ++ s) = (split p s).modifyHead (x ++ ·) := by
  induction x with
  | nil =>
    simp only [List.nil_append]
    cases split p s <;> rfl
  | cons a x ih =>
    have ha : ¬ p <+: a :: (x ++ s) := h 0 (by simp)
    have hrest := ih fun l hl => h (l + 1) (by simpa using hl)
    rw [List.cons_append, split_cons ha, hrest, List.modifyHead_modifyHead]
    rfl

/-- There is one way to cut a text. -/
lemma Cut.eq_split {p : List α} (hp : p ≠ []) {s : List α} {ps : List (List α)}
    (h : Cut p s ps) : ps = split p s := by
  induction h with
  | @last s h =>
    have hskip := split_skip s [] fun l _ => by simpa using h l
    simpa using hskip.symm
  | @next x s ps h hs ih =>
    rw [split_skip x (p ++ s) h, split_append hp, ih]
    simp

omit [DecidableEq α] in
/-- The pieces joined with something else. -/
lemma Cut.length_intercalate {p s : List α} {ps : List (List α)} (h : Cut p s ps) (v : List α) :
    ((v.intercalate ps).length : ℤ) =
      s.length + ((ps.length : ℤ) - 1) * ((v.length : ℤ) - p.length) := by
  induction h with
  | last h => simp
  | @next x s ps h hs ih =>
    obtain ⟨y, ys, rfl⟩ := List.exists_cons_of_ne_nil hs.ne_nil
    rw [List.intercalate_cons_cons]
    simp only [List.length_append, List.length_cons, Nat.cast_add, Nat.cast_one, ih]
    ring

/-! ### Counting occurrences -/

@[simp] lemma count_nil (p : List α) : count p [] = 0 := rfl

lemma count_pos_iff {p : List α} (hp : p ≠ []) {s : List α} : 0 < count p s ↔ p <:+: s := by
  induction s with
  | nil => simp [hp]
  | cons a s ih =>
    rw [List.infix_cons_iff, ← ih, count]
    by_cases h : p <+: a :: s <;> simp [h]

lemma count_le_append (p w s : List α) : count p s ≤ count p (w ++ s) := by
  induction w with
  | nil => simp
  | cons a w ih => simp only [List.cons_append, count]; omega

/-- A prefix that brings no occurrence with it is left alone by a replacement. -/
lemma replaceAll_append_of_count_le {p : List α} (v w s : List α)
    (h : count p (w ++ s) ≤ count p s) : replaceAll p v (w ++ s) = w ++ replaceAll p v s := by
  induction w with
  | nil => simp
  | cons a w ih =>
    have hle := count_le_append p w s
    simp only [List.cons_append, count] at h
    have hnot : ¬ p <+: a :: (w ++ s) := by
      intro hp
      rw [if_pos hp] at h
      omega
    rw [if_neg hnot] at h
    rw [List.cons_append, replaceAll_cons hnot, ih (by omega), List.cons_append]

omit [DecidableEq α] in
lemma pair_isPrefix {e c a b : α} {s : List α} :
    [e, c] <+: a :: b :: s ↔ e = a ∧ c = b := by
  simp [List.cons_prefix_cons]

lemma count_pair_cons_cons (e c a b : α) (s : List α) :
    count [e, c] (a :: b :: s) = (if e = a ∧ c = b then 1 else 0) + count [e, c] (b :: s) := by
  rw [count]; simp only [pair_isPrefix]

@[simp] lemma count_pair_singleton (e c a : α) : count [e, c] [a] = 0 := by
  simp [count]

lemma count_pair_cons_of_ne {e a : α} (h : e ≠ a) (c : α) (s : List α) :
    count [e, c] (a :: s) = count [e, c] s := by
  rw [count, if_neg (by simp [List.cons_prefix_cons, h]), Nat.zero_add]

/-! ### Substituting escape sequences in one pass -/

/-- The text read once from left to right: the escape symbol followed by a symbol with a
value is replaced by that value, everything else is copied. -/
def expand (esc : α) (σ : α → Option (List α)) : List α → List α
  | [] => []
  | [a] => [a]
  | a :: b :: s =>
    if a = esc then
      match σ b with
      | some v => v ++ expand esc σ s
      | none => a :: expand esc σ (b :: s)
    else a :: expand esc σ (b :: s)

section Expand

variable {esc : α} {σ : α → Option (List α)}

lemma expand_value {b : α} {v : List α} (h : σ b = some v) (s : List α) :
    expand esc σ (esc :: b :: s) = v ++ expand esc σ s := by
  simp [expand, h]

lemma expand_copy {a b : α} (h : a = esc → σ b = none) (s : List α) :
    expand esc σ (a :: b :: s) = a :: expand esc σ (b :: s) := by
  by_cases ha : a = esc
  · simp [expand, ha, h ha]
  · simp [expand, ha]

/-- Only the values of the sequences that occur matter. -/
lemma expand_congr {τ : α → Option (List α)} (T : List α)
    (h : ∀ c, 0 < count [esc, c] T → σ c = τ c) : expand esc σ T = expand esc τ T := by
  induction T using expand.induct esc σ with
  | case1 => rfl
  | case2 a => rfl
  | case3 b s v hv ih =>
    have hb : σ b = τ b := h b (by rw [count_pair_cons_cons, if_pos ⟨rfl, rfl⟩]; omega)
    rw [expand_value hv, expand_value (hb ▸ hv), ih fun c hc => h c ?_]
    have := count_le_append [esc, c] [esc, b] s
    simp only [List.cons_append, List.nil_append] at this
    omega
  | case4 b s hv ih =>
    have hb : σ b = τ b := h b (by rw [count_pair_cons_cons, if_pos ⟨rfl, rfl⟩]; omega)
    rw [expand_copy fun _ => hv, expand_copy fun _ => hb ▸ hv, ih fun c hc => h c ?_]
    have := count_le_append [esc, c] [esc] (b :: s)
    simp only [List.cons_append, List.nil_append] at this
    omega
  | case5 a b s ha ih =>
    rw [expand_copy fun h => absurd h ha, expand_copy fun h => absurd h ha, ih fun c hc => h c ?_]
    have := count_le_append [esc, c] [a] (b :: s)
    simp only [List.cons_append, List.nil_append] at this
    omega

lemma expand_cons_of_ne {a : α} (h : a ≠ esc) (s : List α) :
    expand esc σ (a :: s) = a :: expand esc σ s := by
  cases s with
  | nil => rfl
  | cons b s => exact expand_copy (fun ha => absurd ha h) s

/-- A sequence without a value keeps all its occurrences. -/
lemma count_le_expand {c : α} (hesc : σ esc = none) (hce : c ≠ esc) (hc : σ c = none)
    (T : List α) : count [esc, c] T ≤ count [esc, c] (expand esc σ T) := by
  induction T using expand.induct esc σ with
  | case1 => simp
  | case2 a => simp
  | case3 b s v hv ih =>
    have hbe : esc ≠ b := by rintro rfl; simp [hesc] at hv
    have hbc : c ≠ b := by rintro rfl; simp [hc] at hv
    have hle := count_le_append [esc, c] v (expand esc σ s)
    rw [expand_value hv, count_pair_cons_cons, if_neg (fun h => hbc h.2),
      count_pair_cons_of_ne hbe]
    omega
  | case4 b s hv ih =>
    rw [expand_copy fun _ => hv]
    by_cases hb : c = b
    · subst hb
      rw [expand_cons_of_ne hce] at ih ⊢
      rw [count_pair_cons_cons, count_pair_cons_cons]
      omega
    · have hle := count_le_append [esc, c] [esc] (expand esc σ (b :: s))
      rw [count_pair_cons_cons, if_neg (fun h => hb h.2)]
      simp only [List.cons_append, List.nil_append] at hle
      omega
  | case5 a b s ha ih =>
    have hle := count_le_append [esc, c] [a] (expand esc σ (b :: s))
    rw [expand_copy fun h => absurd h ha, count_pair_cons_of_ne (Ne.symm ha)]
    simp only [List.cons_append, List.nil_append] at hle
    omega

/-- **One more replacement pass.** If the values inserted so far bring no occurrence of a
further sequence with them, replacing that sequence is the same as having given it a value
in the first place. -/
theorem replaceAll_expand {c : α} (v : List α) (hesc : σ esc = none) (hce : c ≠ esc)
    (hc : σ c = none) (T : List α)
    (h : count [esc, c] (expand esc σ T) = count [esc, c] T) :
    replaceAll [esc, c] v (expand esc σ T) = expand esc (Function.update σ c (some v)) T := by
  have hne : [esc, c] ≠ [] := by simp
  have hself : Function.update σ c (some v) c = some v := Function.update_self ..
  have hother : ∀ b, c ≠ b → Function.update σ c (some v) b = σ b :=
    fun b hb => Function.update_of_ne (Ne.symm hb) ..
  have hskip : ∀ (a : α) (s : List α), a ≠ esc → ¬ [esc, c] <+: a :: s := by
    intro a s ha hp
    exact ha (by simp [List.cons_prefix_cons] at hp; exact hp.1.symm)
  induction T using expand.induct esc σ with
  | case1 => simp [expand]
  | case2 a => rw [expand, expand, replaceAll_cons (by simp [List.cons_prefix_cons]),
      replaceAll_nil]
  | case3 b s w hw ih =>
    have hbe : esc ≠ b := by rintro rfl; simp [hesc] at hw
    have hbc : c ≠ b := by rintro rfl; simp [hc] at hw
    rw [expand_value hw, count_pair_cons_cons, if_neg (fun h => hbc h.2),
      count_pair_cons_of_ne hbe, Nat.zero_add] at h
    have hle := count_le_append [esc, c] w (expand esc σ s)
    have hge := count_le_expand hesc hce hc s
    rw [expand_value hw, expand_value ((hother b hbc).trans hw),
      replaceAll_append_of_count_le v w _ (by omega), ih (by omega)]
  | case4 b s hw ih =>
    by_cases hb : c = b
    · subst hb
      rw [expand_copy fun _ => hw, expand_cons_of_ne hce, count_pair_cons_cons,
        count_pair_cons_cons] at h
      rw [expand_cons_of_ne hce, expand_cons_of_ne hce, replaceAll_cons (hskip c _ hce)] at ih
      have hrest := List.cons.inj (ih (by omega))
      rw [expand_copy fun _ => hw, expand_cons_of_ne hce, expand_value hself]
      exact (replaceAll_append hne v _).trans (congrArg _ hrest.2)
    · have hge := count_le_expand hesc hce hc (b :: s)
      have hle := count_le_append [esc, c] [esc] (expand esc σ (b :: s))
      rw [expand_copy fun _ => hw, count_pair_cons_cons, if_neg (fun h => hb h.2),
        Nat.zero_add] at h
      simp only [List.cons_append, List.nil_append] at hle
      rw [expand_copy fun _ => hw, expand_copy fun _ => (hother b hb).trans hw, ← ih (by omega)]
      exact replaceAll_append_of_count_le v [esc] _ (by
        simp only [List.cons_append, List.nil_append]; omega)
  | case5 a b s ha ih =>
    rw [expand_copy fun h => absurd h ha, count_pair_cons_of_ne (Ne.symm ha),
      count_pair_cons_of_ne (Ne.symm ha)] at h
    rw [expand_copy fun h => absurd h ha, expand_copy fun h => absurd h ha,
      replaceAll_cons (hskip a _ ha), ih h]

/-! ### Values without escape symbols -/

/-- No value contains the escape symbol. -/
def Inert (esc : α) (σ : α → Option (List α)) : Prop := ∀ c v, σ c = some v → esc ∉ v

/-- No escape symbol stands immediately before a sequence that has a value. -/
def Spaced (esc : α) (σ : α → Option (List α)) (T : List α) : Prop :=
  ∀ c, (σ c).isSome → count [esc, esc, c] T = 0

lemma Spaced.of_append {w s : List α} (h : Spaced esc σ (w ++ s)) : Spaced esc σ s := by
  intro c hc
  have hle := count_le_append [esc, esc, c] w s
  rw [h c hc] at hle
  exact Nat.le_zero.mp hle

lemma count_append_of_notMem {w : List α} (hw : esc ∉ w) (c : α) (s : List α) :
    count [esc, c] (w ++ s) = count [esc, c] s := by
  induction w with
  | nil => rfl
  | cons a w ih =>
    obtain ⟨ha, hw⟩ := not_or.mp (List.mem_cons.not.mp hw)
    rw [List.cons_append, count_pair_cons_of_ne ha, ih hw]

/-- After an escape symbol that is copied, the next symbol is copied as well. -/
lemma expand_head {b : α} {s : List α} (h : Spaced esc σ (esc :: b :: s)) :
    ∃ t, expand esc σ (b :: s) = b :: t := by
  cases s with
  | nil => exact ⟨[], rfl⟩
  | cons c s =>
    refine ⟨_, expand_copy (fun hb => ?_) s⟩
    by_contra hc
    have hnone := h c (Option.isSome_iff_ne_none.mpr hc)
    simp [count, hb] at hnone

/-- **What one pass leaves**: the sequences with a value are gone, the others are as many as
before. -/
theorem count_expand (hesc : σ esc = none) (hv : Inert esc σ) {T : List α}
    (hT : Spaced esc σ T) (c : α) :
    count [esc, c] (expand esc σ T) = if (σ c).isSome then 0 else count [esc, c] T := by
  induction T using expand.induct esc σ with
  | case1 => simp [expand]
  | case2 a => simp [expand]
  | case3 b s v hb ih =>
    have hbe : esc ≠ b := by rintro rfl; simp [hesc] at hb
    rw [expand_value hb, count_append_of_notMem (hv b v hb), ih (hT.of_append (w := [esc, b])),
      count_pair_cons_cons, count_pair_cons_of_ne hbe]
    by_cases hcb : c = b
    · subst hcb; simp [hb]
    · simp [hcb]
  | case4 b s hb ih =>
    obtain ⟨t, ht⟩ := expand_head hT
    have hrest := ih (hT.of_append (w := [esc]))
    rw [expand_copy fun _ => hb, ht, count_pair_cons_cons, ← ht, hrest, count_pair_cons_cons]
    by_cases hcb : c = b
    · subst hcb; simp [hb]
    · simp [hcb]
  | case5 a b s ha ih =>
    rw [expand_copy fun h => absurd h ha, count_pair_cons_of_ne (Ne.symm ha),
      count_pair_cons_of_ne (Ne.symm ha), ih (hT.of_append (w := [a]))]

end Expand

/-! ### Substituting escape sequences one after the other -/

section Passes

variable (esc : α) (σ : α → Option (List α))

/-- One replacement pass over the whole text; a sequence without a value is left alone. -/
def pass (s : List α) (c : α) : List α :=
  match σ c with
  | some v => replaceAll [esc, c] v s
  | none => s

def passes (cs T : List α) : List α := cs.foldl (pass esc σ) T

/-- The values of the sequences in `cs` only. -/
def restrict (cs : List α) (c : α) : Option (List α) := if c ∈ cs then σ c else none

/-- Whenever the turn of a sequence comes, the text `f` has reached by then contains that
sequence exactly as often as `T` does. -/
def Steady (cs T : List α) (f : List α → List α) : Prop :=
  ∀ pre c post, cs = pre ++ c :: post → (σ c).isSome → count [esc, c] (f pre) = count [esc, c] T

variable {esc σ}

/-- Only the values of the sequences that are passed over matter. -/
lemma passes_congr {σ' : α → Option (List α)} {cs : List α} (h : ∀ c ∈ cs, σ c = σ' c)
    (T : List α) : passes esc σ cs T = passes esc σ' cs T :=
  List.foldl_ext _ _ T fun s c hc => by rw [pass, pass, h c hc]

lemma passes_snoc (cs : List α) (c : α) (T : List α) :
    passes esc σ (cs ++ [c]) T = pass esc σ (passes esc σ cs T) c := by
  simp [passes]

@[simp] lemma restrict_nil : restrict σ [] = fun _ => none := by
  funext x; simp [restrict]

lemma restrict_snoc (cs : List α) (c : α) :
    restrict σ (cs ++ [c]) = Function.update (restrict σ cs) c (σ c) := by
  funext x
  by_cases hx : x = c
  · subst hx; simp [restrict]
  · simp [restrict, hx]

lemma restrict_none {c : α} (h : σ c = none) (cs : List α) : restrict σ cs c = none := by
  simp [restrict, h]

lemma expand_none (T : List α) : expand esc (fun _ => none) T = T := by
  induction T using expand.induct esc (fun _ => none) with
  | case1 => rfl
  | case2 a => rfl
  | case3 b s v hv => exact absurd hv (by simp)
  | case4 b s _ ih => rw [expand_copy fun _ => rfl, ih]
  | case5 a b s ha ih => rw [expand_copy fun _ => rfl, ih]

lemma steady_snoc {cs T : List α} {c : α} {f : List α → List α} :
    Steady esc σ (cs ++ [c]) T f ↔
      Steady esc σ cs T f ∧ ((σ c).isSome → count [esc, c] (f cs) = count [esc, c] T) := by
  constructor
  · intro h
    exact ⟨fun pre d post hd => h pre d (post ++ [c]) (by simp [hd]), h cs c [] rfl⟩
  · rintro ⟨h, hc⟩ pre d post hd hs
    rcases List.eq_nil_or_concat post with rfl | ⟨post', e, rfl⟩
    · obtain ⟨rfl, hdc⟩ := List.append_inj' hd rfl
      obtain rfl : c = d := by simpa using hdc
      exact hc hs
    · have hd' : cs ++ [c] = (pre ++ d :: post') ++ [e] := by simpa using hd
      obtain ⟨hcs, -⟩ := List.append_inj' hd' rfl
      exact h pre d post' hcs hs

/-- **Passes are one pass** as long as no inserted value brings a later sequence with it. -/
theorem passes_eq_expand (hesc : σ esc = none) {cs : List α} (hnd : cs.Nodup) {T : List α}
    (h : Steady esc σ cs T fun pre => expand esc (restrict σ pre) T) :
    passes esc σ cs T = expand esc (restrict σ cs) T := by
  induction cs using List.reverseRecOn with
  | nil => simp [passes, expand_none]
  | append_singleton cs c ih =>
    obtain ⟨hcs, hc⟩ := steady_snoc.mp h
    have hnd' : cs.Nodup := hnd.sublist (List.sublist_append_left cs [c])
    have hnot : c ∉ cs := fun hm => (List.nodup_append.mp hnd).2.2 c hm c (by simp) rfl
    have hnone : restrict σ cs c = none := by simp [restrict, hnot]
    rw [passes_snoc, ih hnd' hcs, restrict_snoc]
    cases hv : σ c with
    | none =>
      have hsame : Function.update (restrict σ cs) c none = restrict σ cs := by
        rw [← hnone]; exact Function.update_eq_self ..
      simp [pass, hv, hsame]
    | some v =>
      have hce : c ≠ esc := by rintro rfl; simp [hesc] at hv
      simp only [pass, hv]
      exact replaceAll_expand v (restrict_none hesc cs) hce hnone T (hc (by simp [hv]))

/-- The two ways to say that no inserted value is read as a sequence: on the texts the
passes go through, and on the template read once. -/
theorem steady_passes_iff (hesc : σ esc = none) {cs : List α} (hnd : cs.Nodup) {T : List α} :
    Steady esc σ cs T (fun pre => passes esc σ pre T) ↔
      Steady esc σ cs T fun pre => expand esc (restrict σ pre) T := by
  induction cs using List.reverseRecOn with
  | nil => simp [Steady]
  | append_singleton cs c ih =>
    have hnd' : cs.Nodup := hnd.sublist (List.sublist_append_left cs [c])
    rw [steady_snoc, steady_snoc, ih hnd']
    refine and_congr_right fun hcs => ?_
    rw [passes_eq_expand hesc hnd' hcs]

lemma eq_before_cons {cs : List α} {c : α} (hc : c ∈ cs) :
    ∃ post, cs = cs.takeWhile (· ≠ c) ++ c :: post := by
  induction cs with
  | nil => simp at hc
  | cons a cs ih =>
    by_cases ha : a = c
    · exact ⟨cs, by simp [ha]⟩
    · obtain ⟨post, hpost⟩ := ih (by simpa [Ne.symm ha] using hc)
      exact ⟨post, by rw [List.takeWhile_cons_of_pos (by simpa using ha), List.cons_append,
        ← hpost]⟩

/-- Steadiness over the sequences that occur in `T`, said sequence by sequence. -/
theorem steady_filter_iff {cs : List α} (hnd : cs.Nodup) {T : List α} :
    (Steady esc σ (cs.filter fun c => 0 < count [esc, c] T) T fun pre =>
        expand esc (restrict σ pre) T) ↔
      ∀ c ∈ cs, (σ c).isSome → 0 < count [esc, c] T →
        count [esc, c] (expand esc (restrict σ (cs.takeWhile (· ≠ c))) T) =
          count [esc, c] T := by
  have hfilter : ∀ pre, expand esc (restrict σ (pre.filter fun c => 0 < count [esc, c] T)) T =
      expand esc (restrict σ pre) T := by
    intro pre
    refine expand_congr T fun d hd => ?_
    simp [restrict, hd]
  have hsplit : ∀ c ∈ cs, 0 < count [esc, c] T → ∃ post,
      cs.filter (fun c => 0 < count [esc, c] T) =
        (cs.takeWhile (· ≠ c)).filter (fun c => 0 < count [esc, c] T) ++ c :: post := by
    intro c hc hpos
    obtain ⟨post, hpost⟩ := eq_before_cons hc
    refine ⟨post.filter fun c => 0 < count [esc, c] T, ?_⟩
    conv_lhs => rw [hpost]
    rw [List.filter_append, List.filter_cons_of_pos (by simpa using hpos)]
  constructor
  · intro h c hc hs hpos
    obtain ⟨post, hpost⟩ := hsplit c hc hpos
    rw [← hfilter]
    exact h _ c post hpost hs
  · intro h pre c post hd hs
    have hmem : c ∈ cs.filter fun c => 0 < count [esc, c] T := by rw [hd]; simp
    have hpos : 0 < count [esc, c] T := by simpa using List.of_mem_filter hmem
    obtain ⟨post', hpost'⟩ := hsplit c (List.mem_of_mem_filter hmem) hpos
    have hnd' := hnd.filter fun c => decide (0 < count [esc, c] T)
    rw [hd] at hnd' hpost'
    -- `c` stands in the list only once, so both splittings are the same
    have hpre : c ∉ pre := fun hm => (List.nodup_append.mp hnd').2.2 c hm c (by simp) rfl
    have hpost : c ∉ post := (List.nodup_cons.mp (List.nodup_append.mp hnd').2.1).1
    obtain ⟨heq, -, -⟩ := (List.append_cons_inj_of_notMem hpre hpost).mp hpost'
    show count [esc, c] (expand esc (restrict σ pre) T) = count [esc, c] T
    rw [heq, hfilter]
    exact h c (List.mem_of_mem_filter hmem) hs hpos

/-! ### The order of the passes -/

lemma restrict_some {cs : List α} {c : α} {v : List α} (h : restrict σ cs c = some v) :
    σ c = some v := by
  unfold restrict at h
  split at h
  · exact h
  · cases h

lemma mem_of_restrict {cs : List α} {c : α} {v : List α} (h : restrict σ cs c = some v) :
    c ∈ cs := by
  by_contra hc
  simp [restrict, hc] at h

lemma Inert.restrict (hv : Inert esc σ) (cs : List α) : Inert esc (restrict σ cs) :=
  fun c v hc => hv c v (restrict_some hc)

lemma Spaced.restrict {T : List α} (hT : Spaced esc σ T) (cs : List α) :
    Spaced esc (restrict σ cs) T := by
  intro c hc
  obtain ⟨v, hv⟩ := Option.isSome_iff_exists.mp hc
  exact hT c (Option.isSome_iff_exists.mpr ⟨v, restrict_some hv⟩)

lemma restrict_restrict {cs ds : List α} (h : ∀ c ∈ ds, c ∈ cs) :
    restrict (restrict σ cs) ds = restrict σ ds := by
  funext c
  by_cases hc : c ∈ ds
  · simp [restrict, hc, h c hc]
  · simp [restrict, hc]

lemma steady_of_inert (hesc : σ esc = none) {T : List α} {cs : List α} (hnd : cs.Nodup)
    (hv : Inert esc (restrict σ cs)) (hT : Spaced esc (restrict σ cs) T) :
    Steady esc σ cs T fun pre => expand esc (restrict σ pre) T := by
  rintro pre c post rfl -
  have hpre : c ∉ pre := fun hm => (List.nodup_append.mp hnd).2.2 c hm c (by simp) rfl
  have hnone : restrict σ pre c = none := if_neg hpre
  have hsub : restrict (restrict σ (pre ++ c :: post)) pre = restrict σ pre :=
    restrict_restrict fun d hd => List.mem_append_left _ hd
  have hcount := count_expand (restrict_none hesc pre) (hsub ▸ hv.restrict pre)
    (hsub ▸ hT.restrict pre) c
  rwa [hnone] at hcount

/-- **The passes commute** when values and text keep clear of each other. -/
theorem passes_perm (hesc : σ esc = none) {T : List α} {cs cs' : List α} (hnd : cs.Nodup)
    (hperm : cs'.Perm cs) (hv : Inert esc (restrict σ cs))
    (hT : Spaced esc (restrict σ cs) T) : passes esc σ cs' T = passes esc σ cs T := by
  have hsame : restrict σ cs' = restrict σ cs := by
    funext c
    simp only [restrict, hperm.mem_iff]
  have hnd' : cs'.Nodup := hperm.nodup_iff.mpr hnd
  rw [passes_eq_expand hesc hnd (steady_of_inert hesc hnd hv hT),
    passes_eq_expand hesc hnd' (steady_of_inert hesc hnd' (hsame ▸ hv) (hsame ▸ hT)), hsame]

end Passes

/-! ### Reading a text back -/

section ReadBack

omit [DecidableEq α] in
/-- A symbol that neither of two words contains tells where they end. -/
lemma append_cons_inj {v w x y : List α} {a : α} (hv : a ∉ v) (hw : a ∉ w)
    (h : v ++ a :: x = w ++ a :: y) : v = w ∧ x = y := by
  induction v generalizing w with
  | nil =>
    cases w with
    | nil => exact ⟨rfl, (List.cons.inj h).2⟩
    | cons b w =>
      obtain ⟨rfl, -⟩ := List.cons.inj h
      exact absurd List.mem_cons_self hw
  | cons b v ih =>
    cases w with
    | nil =>
      obtain ⟨rfl, -⟩ := List.cons.inj h
      exact absurd List.mem_cons_self hv
    | cons c w =>
      obtain ⟨rfl, hrest⟩ := List.cons.inj h
      obtain ⟨rfl, rfl⟩ := ih (fun hmem => hv (List.mem_cons_of_mem b hmem))
        (fun hmem => hw (List.mem_cons_of_mem b hmem)) hrest
      exact ⟨rfl, rfl⟩

omit [DecidableEq α] in
/-- Words that all end in a symbol that none of them contains can be read back. -/
lemma flatMap_snoc_inj {a : α} {vs ws : List (List α)} (hv : ∀ v ∈ vs, a ∉ v)
    (hw : ∀ w ∈ ws, a ∉ w) (h : vs.flatMap (· ++ [a]) = ws.flatMap (· ++ [a])) : vs = ws := by
  induction vs generalizing ws with
  | nil =>
    cases ws with
    | nil => rfl
    | cons w ws => simp at h
  | cons v vs ih =>
    cases ws with
    | nil => simp at h
    | cons w ws =>
      simp only [List.flatMap_cons, List.append_assoc, List.singleton_append] at h
      obtain ⟨rfl, hrest⟩ := append_cons_inj (hv v List.mem_cons_self) (hw w List.mem_cons_self) h
      rw [ih (fun x hx => hv x (List.mem_cons_of_mem v hx))
        (fun x hx => hw x (List.mem_cons_of_mem v hx)) hrest]

/-- Two values in front of the same rest of a text can be told apart from it: nothing follows
them, or they are equally long, or what follows begins with a symbol that stands in neither. -/
def Ends (esc : α) (v w : List α) : List α → Prop
  | [] => True
  | a :: _ => v.length = w.length ∨ a ≠ esc ∧ a ∉ v ∧ a ∉ w

/-- In the text the end of every value can be told, in two readings at once. -/
def Marked (esc : α) (σ τ : α → Option (List α)) : List α → Prop
  | [] => True
  | [_] => True
  | a :: b :: s =>
    (a = esc → ∀ v ∈ σ b, ∀ w ∈ τ b, Ends esc v w s) ∧ Marked esc σ τ (b :: s)

instance (esc : α) (v w : List α) : ∀ s, Decidable (Ends esc v w s)
  | [] => isTrue trivial
  | _ :: _ => inferInstanceAs (Decidable (_ ∨ _))

instance (esc : α) (σ τ : α → Option (List α)) : ∀ T, Decidable (Marked esc σ τ T)
  | [] => isTrue trivial
  | [_] => isTrue trivial
  | _ :: b :: s =>
    have : Decidable (Marked esc σ τ (b :: s)) := instDecidableMarked esc σ τ (b :: s)
    inferInstanceAs (Decidable (_ ∧ _))

variable {esc : α} {σ τ : α → Option (List α)}

omit [DecidableEq α] in
lemma Marked.tail {a : α} {s : List α} (h : Marked esc σ τ (a :: s)) : Marked esc σ τ s := by
  cases s with
  | nil => trivial
  | cons b s => exact h.2

lemma Ends.split {v w s : List α} (h : Ends esc v w s)
    (heq : v ++ expand esc σ s = w ++ expand esc τ s) :
    v = w ∧ expand esc σ s = expand esc τ s := by
  cases s with
  | nil => exact ⟨by simpa [expand] using heq, rfl⟩
  | cons a s =>
    rcases h with hlength | ⟨ha, hv, hw⟩
    · exact List.append_inj heq hlength
    · rw [expand_cons_of_ne ha, expand_cons_of_ne ha] at heq ⊢
      obtain ⟨rfl, hrest⟩ := append_cons_inj hv hw heq
      exact ⟨rfl, congrArg (a :: ·) hrest⟩

/-- **Reading back.** When the end of every value can be told, texts that are expanded to the
same string have the same values. -/
theorem values_of_expand (hesc : σ esc = none) (hdom : ∀ c, (σ c).isSome = (τ c).isSome)
    {T : List α} (hT : Marked esc σ τ T) (h : expand esc σ T = expand esc τ T) :
    ∀ c, 0 < count [esc, c] T → σ c = τ c := by
  induction T using expand.induct esc σ with
  | case1 => simp
  | case2 a => simp
  | case3 b s v hv ih =>
    have hbe : esc ≠ b := by rintro rfl; simp [hesc] at hv
    obtain ⟨w, hw⟩ := Option.isSome_iff_exists.mp ((hdom b).symm.trans (by rw [hv]; rfl))
    rw [expand_value hv, expand_value hw] at h
    obtain ⟨rfl, hrest⟩ := (hT.1 rfl v hv w hw).split h
    intro c hc
    rw [count_pair_cons_cons, count_pair_cons_of_ne hbe] at hc
    by_cases hcb : c = b
    · subst hcb
      rw [hv, hw]
    · refine ih hT.tail.tail hrest c ?_
      simpa [hcb] using hc
  | case4 b s hv ih =>
    have hw : τ b = none := by
      have hnone := hdom b
      rw [hv] at hnone
      simpa using hnone.symm
    rw [expand_copy fun _ => hv, expand_copy fun _ => hw] at h
    intro c hc
    by_cases hcb : c = b
    · subst hcb
      rw [hv, hw]
    · refine ih hT.tail (List.cons.inj h).2 c ?_
      simpa [count_pair_cons_cons, hcb] using hc
  | case5 a b s ha ih =>
    rw [expand_copy fun h => absurd h ha, expand_copy fun h => absurd h ha] at h
    intro c hc
    refine ih hT.tail (List.cons.inj h).2 c ?_
    rwa [count_pair_cons_of_ne (Ne.symm ha)] at hc

end ReadBack

end Text
