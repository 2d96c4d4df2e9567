import Mathlib.Data.List.Basic
import Mathlib.Data.List.Forall2
import Mathlib.Tactic.Common

/-!
Reorderings of a list in which the elements of one kind only move forward, past elements of
the other kind, and those of the same kind keep their order.

With the order inside each kind fixed, where the elements of the first kind stand is told by
how many of them there are before each element of the second kind.
-/

namespace Reorder

variable {α : Type*} (p : α → Bool)

/-- For each element that is not of kind `p`, how many of kind `p` come before it, not counting
`n` that have come already. -/
def ahead (n : ℕ) : List α → List ℕ
  | [] => []
  | x :: xs => if p x then ahead (n + 1) xs else n :: ahead n xs

/-- From `xs` to `ys` elements of kind `p` have moved forward: what one of them preceded, it
still precedes. -/
structure Advanced (xs ys : List α) : Prop where
  moved : ys.filter p = xs.filter p
  passed : ys.filter (fun x => !p x) = xs.filter fun x => !p x
  ahead_le : List.Forall₂ (· ≤ ·) (ahead p 0 xs) (ahead p 0 ys)

variable {p}

lemma ahead_append (n : ℕ) (xs ys : List α) :
    ahead p n (xs ++ ys) = ahead p n xs ++ ahead p (n + (xs.filter p).length) ys := by
  induction xs generalizing n with
  | nil => simp [ahead]
  | cons x xs ih =>
    cases hx : p x with
    | true =>
      have hn : n + 1 + (xs.filter p).length = n + ((xs.filter p).length + 1) := by omega
      simp [ahead, hx, ih, hn]
    | false => simp [ahead, hx, ih]

lemma ahead_mono {m n : ℕ} (h : m ≤ n) (xs : List α) :
    List.Forall₂ (· ≤ ·) (ahead p m xs) (ahead p n xs) := by
  induction xs generalizing m n with
  | nil => exact List.Forall₂.nil
  | cons x xs ih =>
    cases hx : p x with
    | true => simpa [ahead, hx] using ih (Nat.succ_le_succ h)
    | false => simpa [ahead, hx] using ⟨h, ih h⟩

lemma forall₂_le_trans {as bs cs : List ℕ} (h : List.Forall₂ (· ≤ ·) as bs)
    (h' : List.Forall₂ (· ≤ ·) bs cs) : List.Forall₂ (· ≤ ·) as cs := by
  induction h generalizing cs with
  | nil => exact h'
  | cons hab _ ih =>
    rcases h' with _ | ⟨hbc, htail⟩
    exact List.Forall₂.cons (Nat.le_trans hab hbc) (ih htail)

namespace Advanced

variable {xs ys zs : List α} {a : α}

lemma refl (xs : List α) : Advanced p xs xs :=
  ⟨rfl, rfl, ahead_mono (Nat.le_refl _) xs⟩

/-- The last element stays where it is. -/
lemma snoc (h : Advanced p xs ys) (a : α) : Advanced p (xs ++ [a]) (ys ++ [a]) := by
  refine ⟨?_, ?_, ?_⟩
  · rw [List.filter_append, List.filter_append, h.moved]
  · rw [List.filter_append, List.filter_append, h.passed]
  · rw [ahead_append, ahead_append, h.moved]
    exact List.rel_append h.ahead_le (ahead_mono (Nat.le_refl _) _)

/-- The last element moves forward past elements of the other kind. -/
lemma insert (h : Advanced p xs (ys ++ zs)) (ha : p a = true) (hz : ∀ z ∈ zs, p z = false) :
    Advanced p (xs ++ [a]) (ys ++ a :: zs) := by
  have hzs : zs.filter p = [] := List.filter_eq_nil_iff.mpr fun z hz' => by simp [hz z hz']
  refine ⟨?_, ?_, ?_⟩
  · rw [List.filter_append xs, ← h.moved]
    simp [ha, hzs]
  · rw [List.filter_append xs, ← h.passed]
    simp [ha]
  · have hxs : ahead p 0 (xs ++ [a]) = ahead p 0 xs := by simp [ahead_append, ahead, ha]
    rw [hxs]
    refine forall₂_le_trans h.ahead_le ?_
    rw [ahead_append, ahead_append]
    refine List.rel_append (ahead_mono (Nat.le_refl _) ys) ?_
    simpa [ahead, ha] using ahead_mono (Nat.le_succ _) zs

lemma mem (h : Advanced p xs ys) (ha : a ∈ ys) : a ∈ xs := by
  cases hp : p a with
  | true => exact List.mem_of_mem_filter (h.moved ▸ List.mem_filter.mpr ⟨ha, hp⟩)
  | false =>
    have hmem : a ∈ ys.filter fun x => !p x := List.mem_filter.mpr ⟨ha, by simp [hp]⟩
    exact List.mem_of_mem_filter (h.passed ▸ hmem)

end Advanced

end Reorder
