import Ealogger.Lib.Lts
import Ealogger.Turns

/-!
The whole `Logger` statement by statement.

In `Threads` and `AsyncQueue` a thread has its turn at a sink in one step, and so are the other
operations on the sinks. Here such a step only takes the mutex of the key; what is done under it is
done in the steps of `Turns`, while the other threads go on, with other sinks too. Every run is one
of those systems, in which each turn is taken at the moment at which its mutex is acquired; and a
sink whose mutex is free is what it is there. The map has no mutex of its own: here every access
to it is one step, and entries come and go while no iterator stands on it.
-/

namespace Ealogger.Statements

open Slice FileFailure Turns

/-- There is an entry under the key. -/
def present (L : Logger) (k : LoggerSink) : Bool := (L.loggerSinkMap k).isSome

/-- The turn inserts an entry or erases one. -/
def rebuilds (L : Logger) : Turn → Bool
  | .initSyslogSink .. => !present L .ealSyslog
  | .initConsoleSink .. => !present L .ealConsole
  | .initFileSink .. => !present L .ealFileSimple
  | .discardSink k _ => present L k
  | _ => false

/-- The rest of a turn does. -/
def stillRebuilds (p : Bool) : Micro → Bool
  | .construct _ _ => !p
  | .assign _ _ => !p
  | .erase _ => p
  | _ => false

/-- Threads that use a `Logger`, in a system in which their turns are steps. -/
structure System (S α ι : Type) where
  lts : Lts S α
  logger : S → Logger
  withLogger : S → Logger → S
  /-- The turn that a step is, and whose. -/
  turn : α → Option (ι × Turn)
  /-- The threads that are not under the mutex of a sink when the step is made. -/
  idle : α → ι → Prop
  /-- The step looks for an entry under the key. -/
  looks : α → LoggerSink → Prop
  /-- An iterator stands on the map. -/
  iterates : S → Prop

/-- The turns act on the `Logger`, and the other steps leave it alone; where the threads are does
not depend on it, but for the entries that they look for; and entries come and go while no iterator
stands on the map. -/
structure System.Lawful {S α ι : Type} (A : System S α ι) (env : Env) : Prop where
  logger_with : ∀ s L, A.logger (A.withLogger s L) = L
  with_with : ∀ s L L', A.withLogger (A.withLogger s L) L' = A.withLogger s L'
  with_logger : ∀ s, A.withLogger s (A.logger s) = s
  iterates_with : ∀ s L, A.iterates (A.withLogger s L) ↔ A.iterates s
  next_logger : ∀ a s, A.lts.enabled a s → A.logger (A.lts.next a s) =
    match A.turn a with
    | some (_, t) => t.exec env (A.logger s)
    | none => A.logger s
  next_with : ∀ a s L L',
    A.withLogger (A.lts.next a (A.withLogger s L)) L' = A.withLogger (A.lts.next a s) L'
  enabled_with : ∀ a s L, A.lts.enabled a s →
    (∀ k, A.looks a k → present (A.logger s) k = present L k) → A.lts.enabled a (A.withLogger s L)
  looks_for : ∀ a s k, A.lts.enabled a s → A.looks a k →
    (∃ i t, A.turn a = some (i, t) ∧ t.key = k) ∨ A.iterates s
  turn_idle : ∀ a i t, A.turn a = some (i, t) → A.idle a i
  rebuilds_alone : ∀ a s i t, A.lts.enabled a s → A.turn a = some (i, t) →
    rebuilds (A.logger s) t = true → ¬ A.iterates (A.lts.next a s)

/-- The system, with the `Logger` as it is, and the mutexes of the keys. -/
structure State (S ι : Type) where
  system : S
  owner : LoggerSink → Option ι
  phase : ι → Sharded.Phase LoggerSink Micro

inductive Label (α ι : Type)
  /-- A step of the system; of a turn, that the mutex is acquired. -/
  | act (a : α)
  | micro (i : ι)
  | release (i : ι)

variable {S α ι : Type} [DecidableEq ι] (A : System S α ι) (env : Env)

/-- The sinks and their mutexes. -/
def State.sinks (s : State S ι) : Sharded.State ι LoggerSink Logger Micro :=
  ⟨A.logger s.system, s.owner, s.phase⟩

def State.put (s : State S ι) (t : Sharded.State ι LoggerSink Logger Micro) : State S ι :=
  ⟨A.withLogger s.system t.shared, t.owner, t.phase⟩

/-- A thread is about to insert an entry or to erase one. -/
def State.rebuilding (s : State S ι) : Prop :=
  ∃ i k c, s.phase i = .inside k c ∧ stillRebuilds (present (A.logger s.system) k) c = true

def enabled (x : Label α ι) (s : State S ι) : Prop :=
  match x with
  | .act a => A.lts.enabled a s.system ∧ (∀ i, A.idle a i → s.phase i = .outside) ∧
      (∀ i t, A.turn a = some (i, t) → s.owner t.key = none) ∧
      -- no iterator comes to stand on a map that is being changed
      (A.iterates (A.lts.next a s.system) → A.iterates s.system ∨ ¬ s.rebuilding A)
  | .micro i => Sharded.enabled (machine env) (.micro i) (s.sinks A)
  | .release i => Sharded.enabled (machine env) (.release i) (s.sinks A)

/-- The `Logger` stays as it is when a mutex is acquired. -/
def moved (a : α) (s : State S ι) : State S ι :=
  { s with system := A.withLogger (A.lts.next a s.system) (A.logger s.system) }

def next (x : Label α ι) (s : State S ι) : State S ι :=
  match x with
  | .act a => match A.turn a with
    | some (i, t) => (moved A a s).put A (Sharded.next (machine env) (.acquire i t) (s.sinks A))
    | none => moved A a s
  | .micro i => s.put A (Sharded.next (machine env) (.micro i) (s.sinks A))
  | .release i => s.put A (Sharded.next (machine env) (.release i) (s.sinks A))

def lts : Lts (State S ι) (Label α ι) := ⟨enabled A env, next A env⟩

def start (s : S) : State S ι := ⟨s, fun _ => none, fun _ => .outside⟩

/-- The steps of the system. -/
def atomic : Label α ι → List α
  | .act a => [a]
  | _ => []

/-- What a state is in the system. -/
structure Refines (s : State S ι) (t : S) : Prop where
  system : A.withLogger s.system (A.logger t) = t
  behind : Sharded.Behind slice Good fits (resume env) (s.sinks A) (A.logger t)
  quiet : A.iterates s.system → ¬ s.rebuilding A

/-! ### Entries -/

variable {L : Logger} {k j : LoggerSink}

lemma present_put (L : Logger) (k : LoggerSink) (s : Option AnySink) (w : World) :
    present (L.put k s w) k = s.isSome := by
  simp [present, Logger.put]

lemma present_atSink (f : AnySink → World → Call (AnySink × World)) :
    present (L.atSink k f).state k = present L k := by
  cases hs : L.loggerSinkMap k with
  | none => rw [Logger.atSink_none hs]; rfl
  | some s =>
    rw [Logger.atSink_some hs, Call.map_state, present_put]
    simp [present, hs]

lemma present_written (dev : Device) (f : Sink → Option Str) :
    present (written k dev f L) k = present L k := by
  unfold written
  cases hs : L.loggerSinkMap k with
  | none => rfl
  | some s =>
    cases hf : f s.base with
    | none => simp only [hf]
    | some msg => simp [hf, wrote, present, Logger.put, hs]

lemma present_slice (h : slice k L = slice k L') : present L k = present L' k := by
  have hmap : (slice k L).loggerSinkMap k = (slice k L').loggerSinkMap k := by rw [h]
  rw [slice_map_self, slice_map_self] at hmap
  rw [present, present, hmap]

lemma present_install (c : Call (AnySink × World)) (dev : Device) :
    present (L.install k c dev).state k = true := by
  have hput : present (L.put k (some c.state.1) c.state.2) k = true := present_put L k _ _
  rw [Logger.install, Call.catchAll_state]
  exact Call.andThen_state (p := fun L' => present L' k = true) hput (by simp [present])

/-- The rest of a turn that does not rebuild the map leaves the entries as they are. -/
lemma present_resume {c : Micro} (h : stillRebuilds (present L k) c = false) :
    present (resume env k c L) k = present L k := by
  cases c with
  | getEnabled m dev => exact present_written dev _
  | compareLevel m dev => exact present_written dev _
  | copyTemplate m dev => exact present_written dev _
  | lockPatterns m dev msg => exact present_written dev _
  | replacePattern m dev msg rest => exact present_written dev _
  | writeMessage dev msg => exact present_written dev _
  | construct s dev =>
    have hp : present L k = true := by simpa [stillRebuilds] using h
    rw [hp]
    exact present_install _ dev
  | assign s dev =>
    have hp : present L k = true := by simpa [stillRebuilds] using h
    rw [hp]
    exact present_install _ dev
  | release old dev => simp [resume, present]
  | erase dev =>
    have hp : present L k = false := h
    rw [hp]
    simp [resume, Logger.discard, Logger.erase, present, Logger.put]
  | find => rfl
  | _ => exact present_atSink _

/-- What is still to be done when a turn begins. -/
lemma stillRebuilds_enter (t : Turn) :
    stillRebuilds (present L t.key) t.enter = rebuilds L t := by
  cases t <;> rfl

/-- A step never leaves more to rebuild. -/
lemma stillRebuilds_step {c c' : Micro} (hstep : (step env k c L).2 = some c')
    (h : stillRebuilds (present (step env k c L).1 k) c' = true) :
    stillRebuilds (present L k) c = true := by
  rcases step_next hstep with hplain | ⟨s, dev, rfl, rfl⟩ | ⟨dev, rfl⟩
  · cases c' <;> first | exact absurd hplain id | exact absurd h nofun
  · exact h
  · exact absurd h nofun

/-! ### One step -/

variable {A} {env} {s : State S ι} {t : S} {x : Label α ι} {i : ι}

omit [DecidableEq ι] in
lemma sinks_put (hA : A.Lawful env) (s : State S ι)
    (q : Sharded.State ι LoggerSink Logger Micro) : (s.put A q).sinks A = q := by
  simp [State.put, State.sinks, hA.logger_with]

omit [DecidableEq ι] in
/-- While nothing is rebuilt the entries are those that there will be. -/
lemma present_settle (howned : Sharded.Owned (s.sinks A)) (hquiet : ¬ s.rebuilding A)
    (k : LoggerSink) : present (Sharded.settle (resume env) k (s.sinks A)) k =
      present (A.logger s.system) k := by
  unfold Sharded.settle
  cases hi : (s.sinks A).owner k with
  | none => rfl
  | some i =>
    have hholds : ((s.sinks A).phase i).holds = some k := (howned i k).mpr hi
    simp only [Option.map_some]
    cases hc : (s.sinks A).phase i with
    | outside => rfl
    | leaving k' => rfl
    | inside k' c =>
      obtain rfl : k' = k := by simpa [hc] using hholds
      refine present_resume env (Bool.eq_false_iff.mpr fun hstill => hquiet ?_)
      exact ⟨i, k', c, hc, hstill⟩

omit [DecidableEq ι] in
/-- What the step looks for is the same in the system. -/
lemma present_looks (hA : A.Lawful env) (h : Refines A env s t) {a : α}
    (ha : enabled A env (.act a) s) {k : LoggerSink} (hk : A.looks a k) :
    present (A.logger s.system) k = present (A.logger t) k := by
  obtain ⟨hstep, -, hfree, -⟩ := ha
  rcases hA.looks_for a s.system k hstep hk with ⟨i, u, hturn, rfl⟩ | hiter
  · exact present_slice (h.behind.free (hfree i u hturn))
  · have hsame := present_slice (h.behind.same k)
    rwa [present_settle h.behind.owned (h.quiet hiter) k] at hsame

omit [DecidableEq ι] in
/-- The step can be made there, with the same effect on the rest of the system. -/
lemma system_act (hA : A.Lawful env) (h : Refines A env s t) {a : α}
    (ha : enabled A env (.act a) s) : A.lts.enabled a t ∧
      A.withLogger (A.lts.next a s.system) (A.logger (A.lts.next a t)) = A.lts.next a t := by
  have henabled := hA.enabled_with a s.system (A.logger t) ha.1 fun k => present_looks hA h ha
  rw [h.system] at henabled
  refine ⟨henabled, ?_⟩
  rw [← hA.next_with a s.system (A.logger t), h.system, hA.with_logger]

lemma refines_act (hA : A.Lawful env) (h : Refines A env s t) {a : α}
    (ha : enabled A env (.act a) s) :
    A.lts.enabled a t ∧ Refines A env (next A env (.act a) s) (A.lts.next a t) := by
  obtain ⟨hthere, hsystem⟩ := system_act hA h ha
  obtain ⟨hhere, hidle, hfree, hiter⟩ := ha
  have hlogger := hA.next_logger a t hthere
  refine ⟨hthere, ?_⟩
  cases hturn : A.turn a with
  | none =>
    rw [hturn] at hlogger
    have hnext : next A env (.act a) s = moved A a s := by simp [next, hturn]
    have hsinks : (moved A a s).sinks A = s.sinks A := by
      simp [moved, State.sinks, hA.logger_with]
    have hrebuilding : (moved A a s).rebuilding A ↔ s.rebuilding A := by
      simp [moved, State.rebuilding, hA.logger_with]
    rw [hnext]
    refine ⟨?_, ?_, ?_⟩
    · rw [moved, hA.with_with, hsystem]
    · rw [hsinks, hlogger]
      exact h.behind
    · intro hit
      rw [moved, hA.iterates_with] at hit
      rw [hrebuilding]
      exact (hiter hit).elim h.quiet id
  | some iu =>
    obtain ⟨i, u⟩ := iu
    rw [hturn] at hlogger
    have hout : s.phase i = .outside := hidle i (hA.turn_idle a i u hturn)
    have hacquire : Sharded.enabled (machine env) (.acquire i u) (s.sinks A) :=
      ⟨hout, hfree i u hturn⟩
    have hnext : next A env (.act a) s =
        (moved A a s).put A (Sharded.next (machine env) (.acquire i u) (s.sinks A)) := by
      simp [next, hturn]
    rw [hnext]
    refine ⟨?_, ?_, ?_⟩
    · rw [State.put, moved, hA.with_with, hA.with_with, hsystem]
    · rw [sinks_put hA, hlogger]
      exact Sharded.behind_acquire (machine_parts env) h.behind hacquire
    · intro hit
      rw [State.put, moved, hA.iterates_with, hA.iterates_with] at hit
      rintro ⟨j, k, c, hj, hstill⟩
      simp only [State.put, Sharded.next, hA.logger_with, State.sinks] at hj hstill
      by_cases hji : j = i
      · subst hji
        obtain ⟨rfl, rfl⟩ : u.key = k ∧ u.enter = c := by simpa [machine] using hj
        rw [stillRebuilds_enter] at hstill
        exact hA.rebuilds_alone a s.system j u hhere hturn hstill hit
      · have hj : s.phase j = .inside k c := by simpa [hji] using hj
        have hrebuilding : s.rebuilding A := ⟨j, k, c, hj, hstill⟩
        exact (hiter hit).elim (fun h' => h.quiet h' hrebuilding) fun h' => h' hrebuilding

omit [DecidableEq ι] in
lemma holds_of_inside (A : System S α ι) {k : LoggerSink} {c : Micro}
    (hc : s.phase i = .inside k c) : ((s.sinks A).phase i).holds = some k := by
  have hphase : (s.sinks A).phase i = .inside k c := hc
  rw [hphase]
  rfl

/-- Nobody begins to rebuild the map under a mutex. -/
lemma rebuilding_inside (hA : A.Lawful env) (h : Refines A env s t) {x : Sharded.Label ι Turn}
    (hx : Sharded.enabled (machine env) x (s.sinks A)) (hinside : ∀ i u, x ≠ .acquire i u)
    (hnext : (s.put A (Sharded.next (machine env) x (s.sinks A))).rebuilding A) :
    s.rebuilding A := by
  obtain ⟨j, k', c', hj, hstill⟩ := hnext
  simp only [State.put, hA.logger_with] at hj hstill
  cases x with
  | acquire i u => exact absurd rfl (hinside i u)
  | micro i =>
    obtain ⟨k, c, hc⟩ := hx
    have hc : s.phase i = .inside k c := hc
    simp only [Sharded.next, State.sinks, hc] at hj hstill
    by_cases hji : j = i
    · subst hji
      rw [Function.update_self] at hj
      cases hstep : (step env k c (A.logger s.system)).2 with
      | none => simp [machine, hstep, Sharded.Phase.after] at hj
      | some d =>
        obtain ⟨rfl, rfl⟩ : k = k' ∧ d = c' := by
          simpa [machine, hstep, Sharded.Phase.after] using hj
        exact ⟨j, k, c, hc, stillRebuilds_step env hstep hstill⟩
    · rw [Function.update_of_ne hji] at hj
      have hk : k' ≠ k := by
        rintro rfl
        exact hji (h.behind.owned.unique (holds_of_inside A hj) (holds_of_inside A hc))
      have hsame := present_slice
        (slice_step_ne env h.behind.inv_here (h.behind.fits i k c hc) hk)
      refine ⟨j, k', c', hj, ?_⟩
      rw [← hstill]
      exact congrArg (stillRebuilds · c') hsame.symm
  | release i =>
    obtain ⟨k, hk⟩ := hx
    have hk : s.phase i = .leaving k := hk
    simp only [Sharded.next, State.sinks, hk] at hj hstill
    by_cases hji : j = i
    · subst hji
      simp at hj
    · rw [Function.update_of_ne hji] at hj
      exact ⟨j, k', c', hj, hstill⟩

/-- What a thread does under a mutex, and that it lets go of it, is seen by no other. -/
lemma refines_inside (hA : A.Lawful env) (h : Refines A env s t) {x : Sharded.Label ι Turn}
    (hx : Sharded.enabled (machine env) x (s.sinks A)) (hinside : ∀ i u, x ≠ .acquire i u) :
    Refines A env (s.put A (Sharded.next (machine env) x (s.sinks A))) t := by
  have hbehind := Sharded.behind_step (machine_parts env) h.behind hx
  have hfollow : Sharded.follow (Turn.exec env) x (A.logger t) = A.logger t := by
    cases x with
    | acquire i u => exact absurd rfl (hinside i u)
    | _ => rfl
  rw [hfollow] at hbehind
  refine ⟨?_, ?_, ?_⟩
  · rw [State.put, hA.with_with, h.system]
  · rw [sinks_put hA]
    exact hbehind
  · intro hit
    rw [State.put, hA.iterates_with] at hit
    exact fun hnext => h.quiet hit (rebuilding_inside hA h hx hinside hnext)

/-- **One step.** -/
theorem refines_step (hA : A.Lawful env) (h : Refines A env s t) (hx : enabled A env x s) :
    A.lts.Legal t (atomic x) ∧ Refines A env (next A env x s) (A.lts.run t (atomic x)) := by
  cases x with
  | act a =>
    obtain ⟨hthere, hnext⟩ := refines_act hA h hx
    exact ⟨⟨hthere, trivial⟩, hnext⟩
  | micro i =>
    have hinside : Sharded.enabled (machine env) (.micro i) (s.sinks A) := hx
    exact ⟨trivial, refines_inside hA h hinside (by simp)⟩
  | release i =>
    have hinside : Sharded.enabled (machine env) (.release i) (s.sinks A) := hx
    exact ⟨trivial, refines_inside hA h hinside (by simp)⟩

/-! ### Runs -/

omit [DecidableEq ι] in
lemma refines_start (hA : A.Lawful env) {t : S} (hgood : Good (A.logger t)) :
    Refines A env (start t : State S ι) t where
  system := hA.with_logger t
  behind := Sharded.behind_start slice fits (resume env) hgood
  quiet _ := by simp [State.rebuilding, start]

omit [DecidableEq ι] in
/-- No mutex is held by a thread that is outside. -/
lemma free_of_outside (h : Refines A env s t) (hout : ∀ i, s.phase i = .outside)
    (k : LoggerSink) : s.owner k = none := by
  by_contra hne
  obtain ⟨i, hi⟩ := Option.ne_none_iff_exists'.mp hne
  have hholds : (s.phase i).holds = some k := (h.behind.owned i k).mpr hi
  rw [hout i] at hholds
  cases hholds

omit [DecidableEq ι] in
/-- When every thread is outside, what can be done in the system can be done. -/
lemma enabled_of_outside (hA : A.Lawful env) (h : Refines A env s t)
    (hout : ∀ i, s.phase i = .outside) {a : α} (ha : A.lts.enabled a t) :
    enabled A env (.act a) s := by
  have hfree := free_of_outside h hout
  have hquiet : ¬ s.rebuilding A := by
    rintro ⟨i, k, c, hc, -⟩
    cases (hout i).symm.trans hc
  have hhere := hA.enabled_with a t (A.logger s.system) ha fun k _ =>
    (present_slice (h.behind.free (hfree k))).symm
  rw [← h.system, hA.with_with, hA.with_logger] at hhere
  exact ⟨hhere, fun i _ => hout i, fun _ u _ => hfree u.key, fun _ => .inr hquiet⟩

lemma refines_run (hA : A.Lawful env) {t : S} (hgood : Good (A.logger t))
    {xs : List (Label α ι)} (h : (lts A env).Legal (start t) xs) :
    A.lts.Legal t (xs.flatMap atomic) ∧
      Refines A env ((lts A env).run (start t) xs) (A.lts.run t (xs.flatMap atomic)) :=
  h.simulation (r := Refines A env) (f := atomic) (fun _ _ _ hr hx => refines_step hA hr hx)
    (refines_start hA hgood)

end Ealogger.Statements
