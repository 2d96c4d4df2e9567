import Mathlib.Data.List.Basic
import Mathlib.Data.List.Induction
import Mathlib.Tactic.Common

/-!
Transition systems with labelled steps. A label says everything about a step, so that the
state after it is a function of the state before, and a run is the list of its labels: what
has been sent, received or observed along a run is read off that list.
-/

/-- States `σ`, labels `α`. -/
structure Lts (σ α : Type*) where
  enabled : α → σ → Prop
  next : α → σ → σ

namespace Lts

variable {σ α : Type*} (T : Lts σ α)

def run (s : σ) (as : List α) : σ := as.foldl (fun s a => T.next a s) s

/-- Every step is enabled in the state it is taken in. -/
def Legal (s : σ) : List α → Prop
  | [] => True
  | a :: as => T.enabled a s ∧ Legal (T.next a s) as

@[simp] lemma run_nil (s : σ) : T.run s [] = s := rfl
@[simp] lemma run_cons (s : σ) (a : α) (as : List α) :
    T.run s (a :: as) = T.run (T.next a s) as := rfl

@[simp] lemma run_append (s : σ) (as bs : List α) :
    T.run s (as ++ bs) = T.run (T.run s as) bs := by
  simp [run]

@[simp] lemma legal_nil (s : σ) : T.Legal s [] := trivial
@[simp] lemma legal_cons (s : σ) (a : α) (as : List α) :
    T.Legal s (a :: as) ↔ T.enabled a s ∧ T.Legal (T.next a s) as := Iff.rfl

@[simp] lemma legal_append (s : σ) (as bs : List α) :
    T.Legal s (as ++ bs) ↔ T.Legal s as ∧ T.Legal (T.run s as) bs := by
  induction as generalizing s with
  | nil => simp
  | cons a as ih => simp [ih, and_assoc]

variable {T} {s : σ}

/-- **Invariance.** What holds at the start and is kept by every enabled step holds after
every run. -/
theorem Legal.invariant {p : σ → Prop} {as : List α} (h : T.Legal s as) (h0 : p s)
    (hstep : ∀ a s, p s → T.enabled a s → p (T.next a s)) : p (T.run s as) := by
  induction as generalizing s with
  | nil => exact h0
  | cons a as ih => exact ih h.2 (hstep a s h0 h.1)

/-- **Invariance with history.** The same for a relation between the labels so far and the
state they lead to. -/
theorem Legal.history {p : List α → σ → Prop} {as : List α} (h : T.Legal s as) (h0 : p [] s)
    (hstep : ∀ as a, T.Legal s as → p as (T.run s as) → T.enabled a (T.run s as) →
      p (as ++ [a]) (T.next a (T.run s as))) : p as (T.run s as) := by
  induction as using List.reverseRecOn with
  | nil => exact h0
  | append_singleton as a ih =>
    obtain ⟨has, ha, -⟩ := (T.legal_append s as [a]).mp h
    rw [run_append]
    exact hstep as a has (ih has) ha

/-- **Simulation.** When each step is matched by steps of another system, so is each run. -/
theorem Legal.simulation {τ β : Type*} {T' : Lts τ β} {r : σ → τ → Prop} {f : α → List β}
    (hstep : ∀ a s t, r s t → T.enabled a s → T'.Legal t (f a) ∧ r (T.next a s) (T'.run t (f a)))
    {t : τ} (h0 : r s t) {as : List α} (h : T.Legal s as) :
    T'.Legal t (as.flatMap f) ∧ r (T.run s as) (T'.run t (as.flatMap f)) := by
  induction as generalizing s t with
  | nil => exact ⟨trivial, h0⟩
  | cons a as ih =>
    obtain ⟨hlegal, hnext⟩ := hstep a s t h0 h.1
    obtain ⟨hlegal', hrun⟩ := ih hnext h.2
    rw [List.flatMap_cons, legal_append, run_append, run_cons]
    exact ⟨⟨hlegal, hlegal'⟩, hrun⟩

/-- The states that runs lead to. -/
def Reachable (T : Lts σ α) (s t : σ) : Prop := ∃ as, T.Legal s as ∧ T.run s as = t

lemma Reachable.refl (T : Lts σ α) (s : σ) : T.Reachable s s := ⟨[], trivial, rfl⟩

lemma Reachable.step {t : σ} (h : T.Reachable s t) {a : α} (ha : T.enabled a t) :
    T.Reachable s (T.next a t) := by
  obtain ⟨as, has, rfl⟩ := h
  exact ⟨as ++ [a], (T.legal_append s as [a]).mpr ⟨has, ha, trivial⟩, T.run_append s as [a]⟩

lemma Reachable.step_to {t u : σ} (h : T.Reachable s t) (a : α) (ha : T.enabled a t)
    (hnext : T.next a t = u) : T.Reachable s u :=
  hnext ▸ h.step ha

end Lts
