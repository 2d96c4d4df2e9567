import Mathlib.Logic.Function.Basic
import Mathlib.Tactic.Common

/-!
Threads that carry out operations in small steps on a state in parts, with a lock for each part.

An operation concerns one part. It changes no other one, and what becomes of its part does not
depend on the others. Then it might as well be carried out at once when its lock is acquired: the
state is always the one in which this was done, but for the rest of the operations under way, and
a part whose lock is free is the same in both.
-/

namespace Sharded

/-- Operations `ω` on states `σ` with parts `K`; in `κ` is where an operation stands. It is over
when a step leaves it nowhere. -/
structure Machine (K σ ω κ : Type*) where
  key : ω → K
  enter : ω → κ
  step : K → κ → σ → σ × Option κ

/-- A thread outside, carrying an operation out, or about to release the lock. -/
inductive Phase (K κ : Type*)
  | outside
  | inside (k : K) (c : κ)
  | leaving (k : K)

structure State (ι K σ κ : Type*) where
  shared : σ
  owner : K → Option ι
  phase : ι → Phase K κ

inductive Label (ι ω : Type*)
  | acquire (i : ι) (o : ω)
  | micro (i : ι)
  | release (i : ι)

variable {ι K σ ω κ τ : Type*}

/-- The lock that a thread holds. -/
def Phase.holds : Phase K κ → Option K
  | .outside => none
  | .inside k _ => some k
  | .leaving k => some k

/-- Where a thread is after a step of its operation. -/
def Phase.after (k : K) : Option κ → Phase K κ
  | some c => .inside k c
  | none => .leaving k

@[simp] lemma holds_inside (k : K) (c : κ) : (Phase.inside k c).holds = some k := rfl
@[simp] lemma holds_leaving (k : K) : (Phase.leaving k : Phase K κ).holds = some k := rfl
@[simp] lemma holds_outside : (Phase.outside : Phase K κ).holds = none := rfl

@[simp] lemma holds_after (k : K) (o : Option κ) : (Phase.after k o).holds = some k := by
  cases o <;> rfl

section Locks

variable [DecidableEq ι] [DecidableEq K]

def enabled (M : Machine K σ ω κ) (a : Label ι ω) (s : State ι K σ κ) : Prop :=
  match a with
  | .acquire i o => s.phase i = .outside ∧ s.owner (M.key o) = none
  | .micro i => ∃ k c, s.phase i = .inside k c
  | .release i => ∃ k, s.phase i = .leaving k

def next (M : Machine K σ ω κ) (a : Label ι ω) (s : State ι K σ κ) : State ι K σ κ :=
  match a with
  | .acquire i o =>
    { s with
      owner := Function.update s.owner (M.key o) (some i)
      phase := Function.update s.phase i (.inside (M.key o) (M.enter o)) }
  | .micro i => match s.phase i with
    | .inside k c =>
      { s with
        shared := (M.step k c s.shared).1
        phase := Function.update s.phase i (.after k (M.step k c s.shared).2) }
    | _ => s
  | .release i => match s.phase i with
    | .leaving k =>
      { s with
        owner := Function.update s.owner k none
        phase := Function.update s.phase i .outside }
    | _ => s

def start (s : σ) : State ι K σ κ := ⟨s, fun _ => none, fun _ => .outside⟩

/-- The state after the rest of an operation. -/
def rest (resume : K → κ → σ → σ) (k : K) (st : σ × Option κ) : σ :=
  match st.2 with
  | some c => resume k c st.1
  | none => st.1

/-- `exec` does at once what the machine does in steps, and `resume` does the rest of an
operation that stands somewhere. In `part` is all that an operation on the part changes and
depends on, in states with `inv` and for operations that stand where it `fits`. -/
structure Parts (M : Machine K σ ω κ) (part : K → σ → τ) (inv : σ → Prop)
    (fits : K → κ → Prop) (exec : ω → σ → σ) (resume : K → κ → σ → σ) : Prop where
  enter : ∀ o s, resume (M.key o) (M.enter o) s = exec o s
  fits_enter : ∀ o, fits (M.key o) (M.enter o)
  inv_exec : ∀ o s, inv s → inv (exec o s)
  inv_step : ∀ k c s, inv s → fits k c → inv (M.step k c s).1
  fits_step : ∀ k c s, inv s → fits k c → ∀ c', (M.step k c s).2 = some c' → fits k c'
  goes_on : ∀ k c s, inv s → fits k c → rest resume k (M.step k c s) = resume k c s
  apart_step : ∀ j k c s, inv s → fits k c → j ≠ k → part j (M.step k c s).1 = part j s
  apart : ∀ j o s, inv s → j ≠ M.key o → part j (exec o s) = part j s
  depends : ∀ k c s t, inv s → inv t → fits k c → part k s = part k t →
    part k (resume k c s) = part k (resume k c t)

/-- The state once the thread that holds the lock of a part has finished. -/
def settle (resume : K → κ → σ → σ) (k : K) (s : State ι K σ κ) : σ :=
  match (s.owner k).map s.phase with
  | some (.inside _ c) => resume k c s.shared
  | _ => s.shared

/-- Who is inside holds the lock, and nobody else does. -/
def Owned (s : State ι K σ κ) : Prop := ∀ i k, (s.phase i).holds = some k ↔ s.owner k = some i

/-- A state, and the one in which all operations were carried out at once. -/
structure Behind (part : K → σ → τ) (inv : σ → Prop) (fits : K → κ → Prop)
    (resume : K → κ → σ → σ) (s : State ι K σ κ) (t : σ) : Prop where
  owned : Owned s
  inv_here : inv s.shared
  inv_there : inv t
  fits : ∀ i k c, s.phase i = .inside k c → fits k c
  same : ∀ k, part k (settle resume k s) = part k t

/-! ### The locks -/

variable {M : Machine K σ ω κ} {s s' : State ι K σ κ}

omit [DecidableEq ι] [DecidableEq K] in
lemma Owned.unique (h : Owned s) {i j : ι} {k : K} (hi : (s.phase i).holds = some k)
    (hj : (s.phase j).holds = some k) : i = j :=
  Option.some.inj (((h i k).mp hi).symm.trans ((h j k).mp hj))

/-- A thread takes a free lock. -/
lemma owned_acquire (h : Owned s) {i : ι} {o : ω} (ha : enabled M (.acquire i o) s) :
    Owned (next M (.acquire i o) s) := by
  obtain ⟨hout, hfree⟩ := ha
  intro j k
  have hj := h j k
  by_cases hji : j = i
  · subst hji
    by_cases hk : k = M.key o
    · subst hk
      simp [next]
    · rw [hout] at hj
      simpa [next, hk, Ne.symm hk] using hj
  · by_cases hk : k = M.key o
    · subst hk
      rw [hfree] at hj
      simpa [next, hji, Ne.symm hji] using hj
    · simpa [next, hji, hk] using hj

lemma owned_micro (h : Owned s) {i : ι} {k : K} {c : κ} (hc : s.phase i = .inside k c) :
    Owned (next M (.micro i) s) := by
  intro j k'
  have hj := h j k'
  by_cases hji : j = i
  · subst hji
    simpa [next, hc] using hj
  · simpa [next, hc, hji] using hj

lemma owned_release (h : Owned s) {i : ι} {k : K} (hk : s.phase i = .leaving k) :
    Owned (next M (.release i) s) := by
  have hmine : s.owner k = some i := (h i k).mp (by rw [hk]; rfl)
  intro j k'
  have hj := h j k'
  by_cases hji : j = i
  · subst hji
    by_cases hkk : k' = k
    · subst hkk
      simp [next, hk]
    · rw [hk] at hj
      simpa [next, hk, hkk, Ne.symm hkk] using hj
  · by_cases hkk : k' = k
    · subst hkk
      rw [hmine] at hj
      simpa [next, hk, hji, Ne.symm hji] using hj
    · simpa [next, hk, hji, hkk] using hj

/-! ### One step -/

variable {part : K → σ → τ} {inv : σ → Prop} {fits : K → κ → Prop} {exec : ω → σ → σ}
  {resume : K → κ → σ → σ} {t : σ}

omit [DecidableEq ι] [DecidableEq K] in
lemma settle_of_free {k : K} (hfree : s.owner k = none) : settle resume k s = s.shared := by
  simp [settle, hfree]

omit [DecidableEq ι] [DecidableEq K] in
lemma Behind.free (h : Behind part inv fits resume s t) {k : K} (hfree : s.owner k = none) :
    part k s.shared = part k t := by
  have hsame := h.same k
  rwa [settle_of_free hfree] at hsame

omit [DecidableEq ι] [DecidableEq K] in
/-- What happens elsewhere makes no difference to a part. -/
lemma settle_frame (hM : Parts M part inv fits exec resume) (h : Behind part inv fits resume s t)
    {k : K} (howner : s'.owner k = s.owner k)
    (hphase : ∀ i, s.owner k = some i → s'.phase i = s.phase i) (hinv : inv s'.shared)
    (hpart : part k s'.shared = part k s.shared) :
    part k (settle resume k s') = part k (settle resume k s) := by
  unfold settle
  rw [howner]
  cases hi : s.owner k with
  | none => exact hpart
  | some i =>
    have hholds : (s.phase i).holds = some k := (h.owned i k).mpr hi
    simp only [Option.map_some, hphase i hi]
    cases hc : s.phase i with
    | outside => exact hpart
    | leaving k' => exact hpart
    | inside k' c =>
      obtain rfl : k' = k := by simpa [hc] using hholds
      exact hM.depends k' c _ _ hinv h.inv_here (h.fits i k' c hc) hpart

/-- When the lock is acquired the operation counts as done. -/
lemma behind_acquire (hM : Parts M part inv fits exec resume)
    (h : Behind part inv fits resume s t) {i : ι} {o : ω} (ha : enabled M (.acquire i o) s) :
    Behind part inv fits resume (next M (.acquire i o) s) (exec o t) := by
  obtain ⟨hout, hfree⟩ := ha
  refine ⟨owned_acquire h.owned ⟨hout, hfree⟩, h.inv_here, hM.inv_exec o t h.inv_there,
    fun j k c hj => ?_, fun k => ?_⟩
  · by_cases hji : j = i
    · subst hji
      obtain ⟨rfl, rfl⟩ : M.key o = k ∧ M.enter o = c := by simpa [next] using hj
      exact hM.fits_enter o
    · exact h.fits j k c (by simpa [next, hji] using hj)
  · by_cases hk : k = M.key o
    · subst hk
      have hsettle : settle resume (M.key o) (next M (.acquire i o) s) =
          resume (M.key o) (M.enter o) s.shared := by
        simp [settle, next]
      rw [hsettle, ← hM.enter o t]
      exact hM.depends _ _ _ _ h.inv_here h.inv_there (hM.fits_enter o) (h.free hfree)
    · have hother : ∀ j, s.owner k = some j → (next M (.acquire i o) s).phase j = s.phase j := by
        intro j hj
        have hholds := (h.owned j k).mpr hj
        have hji : j ≠ i := by
          rintro rfl
          simp [hout] at hholds
        simp [next, hji]
      rw [hM.apart k o t h.inv_there hk, ← h.same k]
      exact settle_frame hM h (by simp [next, hk]) hother h.inv_here rfl

/-- A step of an operation makes no difference to how it will end. -/
lemma behind_micro (hM : Parts M part inv fits exec resume)
    (h : Behind part inv fits resume s t) {i : ι} {k : K} {c : κ}
    (hc : s.phase i = .inside k c) : Behind part inv fits resume (next M (.micro i) s) t := by
  have hfits := h.fits i k c hc
  have hmine : s.owner k = some i := (h.owned i k).mp (by rw [hc]; rfl)
  have hinv : inv (next M (.micro i) s).shared := by
    simpa [next, hc] using hM.inv_step k c s.shared h.inv_here hfits
  refine ⟨owned_micro h.owned hc, hinv, h.inv_there, fun j k' c' hj => ?_, fun k' => ?_⟩
  · by_cases hji : j = i
    · subst hji
      cases hstep : (M.step k c s.shared).2 with
      | none => simp [next, hc, hstep, Phase.after] at hj
      | some d =>
        obtain ⟨rfl, rfl⟩ : k = k' ∧ d = c' := by simpa [next, hc, hstep, Phase.after] using hj
        exact hM.fits_step k c s.shared h.inv_here hfits d hstep
    · exact h.fits j k' c' (by simpa [next, hc, hji] using hj)
  · rw [← h.same k']
    by_cases hk : k' = k
    · subst hk
      have hgoes := hM.goes_on k' c s.shared h.inv_here hfits
      have hbefore : settle resume k' s = resume k' c s.shared := by simp [settle, hmine, hc]
      have hafter : settle resume k' (next M (.micro i) s) =
          rest resume k' (M.step k' c s.shared) := by
        cases hstep : (M.step k' c s.shared).2 <;>
          simp [settle, next, hmine, hc, hstep, Phase.after, rest]
      rw [hafter, hbefore, hgoes]
    · have hother : ∀ j, s.owner k' = some j → (next M (.micro i) s).phase j = s.phase j := by
        intro j hj
        have hholds := (h.owned j k').mpr hj
        have hji : j ≠ i := by
          rintro rfl
          simp [hc, Ne.symm hk] at hholds
        simp [next, hc, hji]
      refine settle_frame hM h (by simp [next, hc]) hother hinv ?_
      simpa [next, hc] using hM.apart_step k' k c s.shared h.inv_here hfits hk

lemma behind_release (hM : Parts M part inv fits exec resume)
    (h : Behind part inv fits resume s t) {i : ι} {k : K} (hk : s.phase i = .leaving k) :
    Behind part inv fits resume (next M (.release i) s) t := by
  have hmine : s.owner k = some i := (h.owned i k).mp (by rw [hk]; rfl)
  have hinv : inv (next M (.release i) s).shared := by simpa [next, hk] using h.inv_here
  refine ⟨owned_release h.owned hk, hinv, h.inv_there, fun j k' c hj => ?_, fun k' => ?_⟩
  · by_cases hji : j = i
    · subst hji
      simp [next, hk] at hj
    · exact h.fits j k' c (by simpa [next, hk, hji] using hj)
  · rw [← h.same k']
    by_cases hkk : k' = k
    · subst hkk
      simp [settle, next, hk, hmine]
    · have hother : ∀ j, s.owner k' = some j → (next M (.release i) s).phase j = s.phase j := by
        intro j hj
        have hholds := (h.owned j k').mpr hj
        have hji : j ≠ i := by
          rintro rfl
          simp [hk, Ne.symm hkk] at hholds
        simp [next, hk, hji]
      exact settle_frame hM h (by simp [next, hk, hkk]) hother hinv (by simp [next, hk])

/-- What a step does to the state in which the operations are carried out at once. -/
def follow (exec : ω → σ → σ) (a : Label ι ω) (t : σ) : σ :=
  match a with
  | .acquire _ o => exec o t
  | _ => t

/-- **Each operation at once.** -/
theorem behind_step (hM : Parts M part inv fits exec resume)
    (h : Behind part inv fits resume s t) {a : Label ι ω} (ha : enabled M a s) :
    Behind part inv fits resume (next M a s) (follow exec a t) := by
  cases a with
  | acquire i o => exact behind_acquire hM h ha
  | micro i =>
    obtain ⟨k, c, hc⟩ := ha
    exact behind_micro hM h hc
  | release i =>
    obtain ⟨k, hk⟩ := ha
    exact behind_release hM h hk

omit [DecidableEq ι] [DecidableEq K] in
lemma behind_start (part : K → σ → τ) (fits : K → κ → Prop) (resume : K → κ → σ → σ)
    (h : inv t) : Behind part inv fits resume (start t : State ι K σ κ) t where
  owned i k := by simp [start]
  inv_here := h
  inv_there := h
  fits i k c hc := by simp [start] at hc
  same k := rfl

end Locks

end Sharded
