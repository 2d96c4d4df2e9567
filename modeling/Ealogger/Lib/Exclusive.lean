import Ealogger.Lib.Lts
import Mathlib.Logic.Function.Basic

/-!
Threads that carry out operations on a shared state in small steps, each operation under one
and the same lock.

Whatever the interleaving, the shared state is that of the operations done one after another
in the order in which the lock was acquired, once the thread inside, if there is one, has
finished.
-/

namespace Exclusive

/-- Operations `ω` on shared states `σ`; in `κ` is where an operation stands. The operation is
over when a step leaves it nowhere. -/
structure Machine (σ ω κ : Type*) where
  enter : ω → κ
  step : κ → σ → σ × Option κ

/-- A thread between two operations, at the lock, carrying an operation out, or about to
release the lock. -/
inductive Phase (ω κ : Type*)
  | outside
  | waiting (o : ω)
  | inside (c : κ)
  | leaving

structure State (ι σ ω κ : Type*) where
  shared : σ
  owner : Option ι
  phase : ι → Phase ω κ

inductive Label (ι ω : Type*)
  | call (i : ι) (o : ω)
  | acquire (i : ι) (o : ω)
  | micro (i : ι)
  | release (i : ι)

/-- `exec` does at once what the machine does in steps; `resume` does the rest of an operation
that stands somewhere. -/
structure Resumes {σ ω κ : Type*} (M : Machine σ ω κ) (exec : ω → σ → σ) (resume : κ → σ → σ) :
    Prop where
  enter : ∀ o s, resume (M.enter o) s = exec o s
  goes_on : ∀ c s t c', M.step c s = (t, some c') → resume c' t = resume c s
  ends : ∀ c s t, M.step c s = (t, none) → t = resume c s

variable {ι σ ω κ : Type*}

def Phase.busy : Phase ω κ → Prop
  | .inside _ => True
  | .leaving => True
  | _ => False

/-- Where a thread is after a step of its operation. -/
def Phase.after : Option κ → Phase ω κ
  | some c => .inside c
  | none => .leaving

/-- The operation that has been called and has not got the lock. -/
def Phase.waits : Phase ω κ → Option ω
  | .waiting o => some o
  | _ => none

section Lts

variable [DecidableEq ι]

def enabled (a : Label ι ω) (s : State ι σ ω κ) : Prop :=
  match a with
  | .call i _ => s.phase i = .outside
  | .acquire i o => s.phase i = .waiting o ∧ s.owner = none
  | .micro i => ∃ c, s.phase i = .inside c
  | .release i => s.phase i = .leaving

def next (M : Machine σ ω κ) (a : Label ι ω) (s : State ι σ ω κ) : State ι σ ω κ :=
  match a with
  | .call i o => { s with phase := Function.update s.phase i (.waiting o) }
  | .acquire i o =>
    { s with owner := some i, phase := Function.update s.phase i (.inside (M.enter o)) }
  | .micro i => match s.phase i with
    | .inside c =>
      { s with
        shared := (M.step c s.shared).1
        phase := Function.update s.phase i (.after (M.step c s.shared).2) }
    | _ => s
  | .release i => { s with owner := none, phase := Function.update s.phase i .outside }

def lts (M : Machine σ ω κ) : Lts (State ι σ ω κ) (Label ι ω) := ⟨enabled, next M⟩

def start (s : σ) : State ι σ ω κ := ⟨s, none, fun _ => .outside⟩

/-- The operations in the order in which they got the lock. -/
def acquired (as : List (Label ι ω)) : List (ι × ω) :=
  as.filterMap fun
    | .acquire i o => some (i, o)
    | _ => none

/-- The operations of one thread in the order of its program. -/
def called (i : ι) (as : List (Label ι ω)) : List ω :=
  as.filterMap fun
    | .call j o => if j = i then some o else none
    | _ => none

/-- The operations of one thread among those of all. -/
def byThread (i : ι) (ps : List (ι × ω)) : List ω := (ps.filter fun p => p.1 = i).map Prod.snd

/-- One operation after the other. -/
def serial (exec : ω → σ → σ) (s : σ) (ps : List (ι × ω)) : σ := ps.foldl (fun s p => exec p.2 s) s

/-- The shared state once the thread that holds the lock has finished. -/
def settle (resume : κ → σ → σ) (s : State ι σ ω κ) : σ :=
  match s.owner with
  | none => s.shared
  | some i => match s.phase i with
    | .inside c => resume c s.shared
    | _ => s.shared

/-! ### One step -/

variable {M : Machine σ ω κ} {s : State ι σ ω κ} {a : Label ι ω}

omit [DecidableEq ι] in
lemma settle_of_idle (resume : κ → σ → σ) (h : ∀ i, ¬ (s.phase i).busy) :
    settle resume s = s.shared := by
  unfold settle
  split
  · rfl
  · next i _ =>
    split
    · next c hc => exact absurd (by rw [hc]; trivial) (h i)
    · rfl

omit [DecidableEq ι] in
/-- What holds between the shared state and where any rest of an operation takes it. -/
lemma settle_of_forall {resume : κ → σ → σ} {r : σ → σ → Prop} (hr : ∀ c t, r t (resume c t))
    (hrefl : ∀ t, r t t) : r s.shared (settle resume s) := by
  unfold settle
  split
  · exact hrefl _
  · split
    · exact hr _ _
    · exact hrefl _

/-- Who carries out an operation holds the lock. -/
def Owned (s : State ι σ ω κ) : Prop := ∀ i, (s.phase i).busy → s.owner = some i

lemma step_owned (h : Owned s) (ha : enabled a s) : Owned (next M a s) := by
  intro j hj
  cases a with
  | call i o =>
    by_cases hi : j = i
    · subst hi; simp [next, Phase.busy] at hj
    · exact h j (by simpa [next, hi] using hj)
  | acquire i o =>
    by_cases hi : j = i
    · subst hi; rfl
    · have hheld := h j (by simpa [next, hi] using hj)
      simp [ha.2] at hheld
  | micro i =>
    obtain ⟨c, hc⟩ := ha
    have hmine := h i (by rw [hc]; trivial)
    by_cases hi : j = i
    · subst hi; simpa [next, hc] using hmine
    · simpa [next, hc] using h j (by simpa [next, hc, hi] using hj)
  | release i =>
    have hleaving : s.phase i = .leaving := ha
    have hmine := h i (by rw [hleaving]; trivial)
    by_cases hi : j = i
    · subst hi; simp [next, Phase.busy] at hj
    · have hheld := h j (by simpa [next, hi] using hj)
      rw [hmine, Option.some.injEq] at hheld
      exact absurd hheld.symm hi

/-- Taking the lock is what counts: no other step changes how the operations will end. -/
lemma step_settle {exec : ω → σ → σ} {resume : κ → σ → σ} (hM : Resumes M exec resume)
    (h : Owned s) (ha : enabled a s) :
    settle resume (next M a s) = serial exec (settle resume s) (acquired [a]) := by
  cases a with
  | call i o =>
    have hout : s.phase i = .outside := ha
    cases hown : s.owner with
    | none => simp [settle, next, hown, serial, acquired]
    | some j =>
      by_cases hj : j = i
      · subst hj; simp [settle, next, hown, hout, serial, acquired]
      · simp [settle, next, hown, hj, serial, acquired]
  | acquire i o =>
    simp [settle, next, ha.2, hM.enter, serial, acquired]
  | micro i =>
    obtain ⟨c, hc⟩ := ha
    have hmine := h i (by rw [hc]; trivial)
    cases hstep : (M.step c s.shared).2 with
    | some c' =>
      have hgoes := hM.goes_on c s.shared (M.step c s.shared).1 c' (by rw [← hstep])
      simp [settle, next, hc, hmine, hstep, Phase.after, hgoes, serial, acquired]
    | none =>
      have hends := hM.ends c s.shared (M.step c s.shared).1 (by rw [← hstep])
      simp [settle, next, hc, hmine, hstep, Phase.after, hends, serial, acquired]
  | release i =>
    have hleaving : s.phase i = .leaving := ha
    have hmine := h i (by rw [hleaving]; trivial)
    simp [settle, next, hmine, hleaving, serial, acquired]

/-- A thread's next operation is called, waits, and gets the lock. -/
lemma step_waits (ha : enabled a s) (i : ι) :
    (s.phase i).waits.toList ++ called i [a] =
      byThread i (acquired [a]) ++ ((next M a s).phase i).waits.toList := by
  cases a with
  | call j o =>
    have hout : s.phase j = .outside := ha
    by_cases hj : j = i
    · subst hj; simp [next, called, acquired, byThread, hout, Phase.waits]
    · simp [next, called, acquired, byThread, hj, Ne.symm hj]
  | acquire j o =>
    by_cases hj : j = i
    · subst hj; simp [next, called, acquired, byThread, ha.1, Phase.waits]
    · simp [next, called, acquired, byThread, hj, Ne.symm hj]
  | micro j =>
    obtain ⟨c, hc⟩ := ha
    by_cases hj : j = i
    · subst hj
      cases hstep : (M.step c s.shared).2 <;>
        simp [next, called, acquired, byThread, hc, hstep, Phase.after, Phase.waits]
    · simp [next, called, acquired, byThread, hc, Ne.symm hj]
  | release j =>
    have hleaving : s.phase j = .leaving := ha
    by_cases hj : j = i
    · subst hj; simp [next, called, acquired, byThread, hleaving, Phase.waits]
    · simp [next, called, acquired, byThread, Ne.symm hj]

/-! ### Runs -/

omit [DecidableEq ι] in
lemma acquired_append (as bs : List (Label ι ω)) :
    acquired (as ++ bs) = acquired as ++ acquired bs := by
  simp [acquired]

lemma called_append (i : ι) (as bs : List (Label ι ω)) :
    called i (as ++ bs) = called i as ++ called i bs := by
  simp [called]

lemma byThread_append (i : ι) (ps qs : List (ι × ω)) :
    byThread i (ps ++ qs) = byThread i ps ++ byThread i qs := by
  simp [byThread]

omit [DecidableEq ι] in
lemma serial_append (exec : ω → σ → σ) (s : σ) (ps qs : List (ι × ω)) :
    serial exec s (ps ++ qs) = serial exec (serial exec s ps) qs := by
  simp [serial]

variable {as : List (Label ι ω)} {s₀ : σ}

lemma owned_of_legal (h : (lts M).Legal (start s₀) as) : Owned ((lts M).run (start s₀) as) :=
  h.invariant (fun i hi => by simp [start, Phase.busy] at hi) fun _ _ hs ha => step_owned hs ha

/-- **Mutual exclusion.** -/
theorem busy_unique (h : (lts M).Legal (start s₀) as) {i j : ι}
    (hi : (((lts M).run (start s₀) as).phase i).busy)
    (hj : (((lts M).run (start s₀) as).phase j).busy) : i = j := by
  have howned := owned_of_legal h
  have hboth := (howned i hi).symm.trans (howned j hj)
  exact Option.some.inj hboth

/-- **Atomicity.** Once the thread inside has finished, the shared state is that of the
operations done one after another in the order in which they got the lock. -/
theorem settle_eq_serial {exec : ω → σ → σ} {resume : κ → σ → σ} (hM : Resumes M exec resume)
    (h : (lts M).Legal (start s₀) as) :
    settle resume ((lts M).run (start s₀) as) = serial exec s₀ (acquired as) := by
  let p : List (Label ι ω) → State ι σ ω κ → Prop := fun as s =>
    settle resume s = serial exec s₀ (acquired as)
  refine h.history (p := p) rfl fun as a has ih ha => ?_
  calc settle resume (next M a ((lts M).run (start s₀) as))
      = serial exec (settle resume ((lts M).run (start s₀) as)) (acquired [a]) :=
        step_settle hM (owned_of_legal has) ha
    _ = serial exec (serial exec s₀ (acquired as)) (acquired [a]) := by rw [ih]
    _ = serial exec s₀ (acquired (as ++ [a])) := by rw [acquired_append, serial_append]

/-- **Program order.** -/
theorem byThread_acquired (h : (lts M).Legal (start s₀) as) (i : ι) :
    byThread i (acquired as) ++ (((lts M).run (start s₀) as).phase i).waits.toList =
      called i as := by
  let p : List (Label ι ω) → State ι σ ω κ → Prop := fun as s =>
    byThread i (acquired as) ++ (s.phase i).waits.toList = called i as
  refine h.history (p := p) rfl fun as a has ih ha => ?_
  change byThread i (acquired (as ++ [a])) ++ _ = called i (as ++ [a])
  rw [acquired_append, byThread_append, called_append, ← ih, List.append_assoc,
    List.append_assoc, step_waits ha i]
  rfl

end Lts

end Exclusive
