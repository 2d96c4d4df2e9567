import Ealogger.Lib.Lts

/-!
A queue behind a mutex and a condition variable.

Producers append an item and notify; a consumer waits until the queue is not empty and takes
the first item. A step is what one thread does while it holds the mutex: the append together
with the notification, the test of the predicate together with what it leads to. A consumer
that finds the queue empty gives the mutex up and falls asleep in one step, and may wake up
again without having been notified.
-/

namespace CondQueue

/-- Where a consumer is. One that has been woken up has still to test the predicate again. -/
inductive Phase | outside | awake | asleep | notified
  deriving DecidableEq

def Phase.Active (p : Phase) : Prop := p = .awake ∨ p = .notified

/-- The items and the consumers, of which there may be any number. -/
structure State (T α : Type*) where
  queue : List α
  phase : T → Phase

inductive Step (T α : Type*)
  /-- An append; `woken` is the sleeper that `notify_one` picks. -/
  | push (x : α) (woken : Option T)
  /-- A consumer calls `pop`. -/
  | enter (c : T)
  /-- It tests the predicate: it takes the first item, or falls asleep. -/
  | check (c : T)
  /-- It wakes up for no reason. -/
  | spurious (c : T)
  /-- Somebody asks whether the queue is empty. -/
  | empty

variable {T α : Type*} [DecidableEq T]

def State.set (s : State T α) (c : T) (p : Phase) : State T α :=
  { s with phase := Function.update s.phase c p }

def enabled (a : Step T α) (s : State T α) : Prop :=
  match a with
  | .push _ (some c) => s.phase c = .asleep
  -- nobody is woken up only if nobody sleeps
  | .push _ none => ∀ c, s.phase c ≠ .asleep
  | .enter c => s.phase c = .outside
  | .check c => (s.phase c).Active
  | .spurious c => s.phase c = .asleep
  | .empty => True

def next (a : Step T α) (s : State T α) : State T α :=
  match a with
  | .push x (some c) => State.set { s with queue := s.queue ++ [x] } c .notified
  | .push x none => { s with queue := s.queue ++ [x] }
  | .enter c => s.set c .awake
  | .check c => match s.queue with
    | [] => s.set c .asleep
    | _ :: rest => State.set { s with queue := rest } c .outside
  | .spurious c => s.set c .notified
  | .empty => s

def lts : Lts (State T α) (Step T α) := ⟨enabled, next⟩

def start : State T α := ⟨[], fun _ => .outside⟩

/-- If there is something to take and somebody sleeps un-notified, somebody else is on the way
to take it. -/
def NoLostWakeup (s : State T α) : Prop :=
  s.queue ≠ [] → ∀ c, s.phase c = .asleep → ∃ c', (s.phase c').Active

/-- While somebody sleeps un-notified, there are at least as many consumers on the way as
there are items. -/
def Covered (s : State T α) : Prop :=
  ∀ c, s.phase c = .asleep →
    ∃ cs : List T, cs.Nodup ∧ (∀ c' ∈ cs, (s.phase c').Active) ∧ s.queue.length ≤ cs.length

variable {s : State T α}

@[simp] lemma set_phase_self (s : State T α) (c : T) (p : Phase) : (s.set c p).phase c = p := by
  simp [State.set]

lemma set_phase_ne (s : State T α) {c c' : T} (h : c' ≠ c) (p : Phase) :
    (s.set c p).phase c' = s.phase c' := by
  simp [State.set, h]

lemma active_ne_asleep {p : Phase} (h : p.Active) : p ≠ .asleep := by
  rcases h with rfl | rfl <;> simp

/-- Consumers other than the one that moves are where they were. -/
lemma active_set {cs : List T} (hcs : ∀ c' ∈ cs, (s.phase c').Active) {c : T} (hc : c ∉ cs)
    (p : Phase) : ∀ c' ∈ cs, ((s.set c p).phase c').Active := by
  intro c' hc'
  have hne : c' ≠ c := by
    rintro rfl
    exact hc hc'
  rw [set_phase_ne s hne]
  exact hcs c' hc'

/-- Who still sleeps after somebody has moved, but not to sleep, slept before. -/
lemma Covered.of_set (h : Covered s) {w c : T} {p : Phase} (hp : p ≠ .asleep)
    (hc : (s.set w p).phase c = .asleep) :
    ∃ cs : List T, cs.Nodup ∧ (∀ c' ∈ cs, (s.phase c').Active) ∧ s.queue.length ≤ cs.length := by
  refine h c ?_
  by_cases hcw : c = w
  · subst hcw
    exact absurd ((set_phase_self s c p).symm.trans hc) hp
  · exact (set_phase_ne s hcw p).symm.trans hc

/-- One that is not on the way makes a move. -/
lemma Covered.set (h : Covered s) {w : T} {p : Phase} (hw : ¬ (s.phase w).Active)
    (hp : p ≠ .asleep) : Covered (s.set w p) := by
  intro c hc
  obtain ⟨cs, hnodup, hact, hlen⟩ := h.of_set hp hc
  have hnot : w ∉ cs := fun hmem => hw (hact w hmem)
  exact ⟨cs, hnodup, active_set hact hnot p, hlen⟩

lemma covered_step {a : Step T α} (h : Covered s) (ha : enabled a s) : Covered (next a s) := by
  cases a with
  | push x woken =>
    cases woken with
    | none => exact fun c hc => absurd hc (ha c)
    | some w =>
      intro c hc
      have hw : s.phase w = .asleep := ha
      obtain ⟨cs, hnodup, hact, hlen⟩ := h w hw
      have hnot : w ∉ cs := fun hmem => active_ne_asleep (hact w hmem) hw
      -- the sleeper that has been woken up takes care of the new item
      refine ⟨w :: cs, List.nodup_cons.mpr ⟨hnot, hnodup⟩, ?_, ?_⟩
      · intro c' hc'
        rcases List.mem_cons.mp hc' with rfl | hmem
        · exact Or.inr (set_phase_self _ _ _)
        · exact active_set (s := { s with queue := s.queue ++ [x] }) hact hnot .notified c' hmem
      · simpa [next, State.set] using hlen
  | enter w =>
    have hw : s.phase w = .outside := ha
    exact h.set (by simp [hw, Phase.Active]) (by simp)
  | check w =>
    intro c hc
    cases hq : s.queue with
    | nil => exact ⟨[], List.nodup_nil, by simp, by simp [next, hq, State.set]⟩
    | cons x rest =>
      have hstep : next (.check w) s = State.set { s with queue := rest } w .outside := by
        simp [next, hq]
      rw [hstep] at hc ⊢
      obtain ⟨cs, hnodup, hact, hlen⟩ := h.of_set (by simp) hc
      -- one item and at most one consumer fewer
      refine ⟨cs.erase w, hnodup.erase w, ?_, ?_⟩
      · exact active_set (s := { s with queue := rest })
          (fun c' hc' => hact c' (List.mem_of_mem_erase hc')) (hnodup.not_mem_erase) .outside
      · have herase : cs.length - 1 ≤ (cs.erase w).length := List.le_length_erase
        rw [hq, List.length_cons] at hlen
        change rest.length ≤ _
        omega
  | spurious w =>
    have hw : s.phase w = .asleep := ha
    exact h.set (by simp [hw, Phase.Active]) (by simp)
  | empty => exact h

omit [DecidableEq T] in
lemma Covered.noLostWakeup (h : Covered s) : NoLostWakeup s := by
  intro hq c hc
  obtain ⟨cs, -, hact, hlen⟩ := h c hc
  cases cs with
  | nil => exact absurd (List.length_eq_zero_iff.mp (Nat.le_zero.mp hlen)) hq
  | cons c' cs => exact ⟨c', hact c' List.mem_cons_self⟩

omit [DecidableEq T] in
lemma covered_start : Covered (start : State T α) := fun c hc => by simp [start] at hc

/-- **No wake-up is lost**, for any number of producers and consumers. -/
theorem noLostWakeup_of_legal {as : List (Step T α)} (h : lts.Legal start as) :
    NoLostWakeup (lts.run start as) :=
  (h.invariant covered_start fun _ _ hs ha => covered_step hs ha).noLostWakeup

end CondQueue
