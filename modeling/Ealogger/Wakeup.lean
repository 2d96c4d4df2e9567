import Ealogger.Lib.CondQueue
import Ealogger.Shutdown

/-!
`LogQueue` with its condition variable, and the background thread that waits on it.

`LogQueue` is a queue behind a mutex and a condition variable, with any number of threads in
`pop`. A `Logger` has one such thread. In `Async` it waits until there is something to pop;
here it falls asleep and has to be notified. Once the destructor has set the stop flag and
pushed its last message, the thread is awake or out of `pop` for good.
-/

namespace Ealogger.Wakeup

open Shutdown

/-- `LogQueue`, with threads `T` that call `pop`. -/
abbrev LogQueue (T : Type) := CondQueue.State T LogMessage

/-- `LogQueue::LogQueue`. -/
def LogQueue.new (T : Type) : LogQueue T := CondQueue.start

/-- An asynchronous `Logger`, and where its background thread is inside `pop`. -/
structure Waiting (ι : Type) where
  async : Async ι
  phase : CondQueue.Phase

inductive WaitLabel (ι : Type)
  | act (a : Label ι)
  /-- The background thread finds the queue empty and gives up the mutex. -/
  | sleep
  /-- It wakes up without having been notified. -/
  | spurious

namespace Waiting

variable {ι : Type} [DecidableEq ι]

/-- `notify_one` on a condition variable on which at most one thread sleeps. -/
def notifyOne (p : CondQueue.Phase) : CondQueue.Phase := if p = .asleep then .notified else p

/-- Where a step of the `Logger` leaves the background thread. -/
def phaseAfter (a : Label ι) (s : Waiting ι) : CondQueue.Phase :=
  match a with
  | .push _ _ => notifyOne s.phase
  | .pushExit _ => notifyOne s.phase
  | .test => if s.async.stop then .outside else .awake
  | .pop _ => .outside
  | _ => s.phase

def enabled (a : WaitLabel ι) (s : Waiting ι) : Prop :=
  match a with
  | .act (.pop m) => Async.enabled (.pop m) s.async ∧ s.phase.Active
  | .act a => Async.enabled a s.async
  | .sleep => s.async.worker = .popping ∧ s.phase.Active ∧ s.async.queue = []
  | .spurious => s.phase = .asleep

def next (env : Env) (a : WaitLabel ι) (s : Waiting ι) : Waiting ι :=
  match a with
  | .act a => ⟨Async.next env a s.async, phaseAfter a s⟩
  | .sleep => { s with phase := .asleep }
  | .spurious => { s with phase := .notified }

def lts (env : Env) : Lts (Waiting ι) (WaitLabel ι) := ⟨enabled, next env⟩

def start (L : Logger) : Waiting ι := ⟨Async.start L, .outside⟩

/-- The queue of the `Logger`, with the background thread as its only consumer. -/
def queueView (s : Waiting ι) : LogQueue Unit := ⟨s.async.queue, fun _ => s.phase⟩

end Waiting

/-- The stop flag has been set. -/
def flagSet : Dtor → Bool
  | .stopped _ => true
  | .joining _ => true
  | .joined _ => true
  | _ => false

/-- The steps of the background thread. -/
def byWorker {ι : Type} : Label ι → Bool
  | .test => true
  | .pop _ => true
  | .hand _ _ _ => true
  | .skip _ => true
  | .finish _ => true
  | _ => false

/-- After the destructor has set the stop flag and pushed its message the background thread is
never asleep un-notified, and until it has exited it can go on. -/
structure WakesUp {ι : Type} (s : Waiting ι) : Prop where
  awake : sentExit s.async.dtor = true → s.phase ≠ .asleep
  goesOn : sentExit s.async.dtor = true → s.async.worker ≠ .exited →
    ∃ a, byWorker a = true ∧ Waiting.enabled (.act a) s

/-- The background thread is inside `pop` exactly while the worker is popping; the stop flag
is as the destructor has left it; and after the last message has been pushed a worker that is
still popping has something to pop. -/
structure Consistent {ι : Type} (s : Waiting ι) : Prop where
  inside : s.phase ≠ .outside ↔ s.async.worker = .popping
  stop : flagSet s.async.dtor = true → s.async.stop = true
  left : sentExit s.async.dtor = true → s.async.worker = .popping → s.async.queue ≠ []

section

variable {ι : Type} {env : Env} {s : Waiting ι}

lemma sentExit_flagSet {t : Dtor} (h : sentExit t = true) : flagSet t = true := by
  cases t <;> simp_all [sentExit, flagSet]

lemma notifyOne_ne_outside (p : CondQueue.Phase) :
    Waiting.notifyOne p ≠ .outside ↔ p ≠ .outside := by
  cases p <;> simp [Waiting.notifyOne]

/-- A step that leaves the worker's place, the flag and the destructor alone. -/
lemma Consistent.frame (h : Consistent s) {s' : Waiting ι}
    (hphase : s'.phase ≠ .outside ↔ s.phase ≠ .outside)
    (hworker : s'.async.worker = .popping ↔ s.async.worker = .popping)
    (hstop : s'.async.stop = s.async.stop) (hdtor : s'.async.dtor = s.async.dtor)
    (hqueue : s.async.queue ≠ [] → s'.async.queue ≠ []) : Consistent s' := by
  refine ⟨hphase.trans (h.inside.trans hworker.symm), fun hf => ?_, fun hs hw => ?_⟩
  · rw [hstop]
    exact h.stop (hdtor ▸ hf)
  · exact hqueue (h.left (hdtor ▸ hs) (hworker.mp hw))

variable [DecidableEq ι]

lemma consistent_step {a : WaitLabel ι} (h : Consistent s) (ha : Waiting.enabled a s) :
    Consistent (Waiting.next env a s) := by
  cases a with
  | sleep =>
    obtain ⟨hw, -, -⟩ := ha
    refine h.frame ?_ Iff.rfl rfl rfl id
    simp [Waiting.next, h.inside.mpr hw]
  | spurious =>
    have hp : s.phase = .asleep := ha
    exact h.frame (by simp [Waiting.next, hp]) Iff.rfl rfl rfl id
  | act a =>
    cases a with
    | push i m =>
      refine h.frame (notifyOne_ne_outside s.phase) Iff.rfl rfl rfl fun _ => ?_
      simp [Waiting.next, Async.next]
    | test =>
      have hw : s.async.worker = .testing := ha
      simp only [Waiting.next, Async.next, Waiting.phaseAfter]
      cases hstop : s.async.stop with
      | true => exact ⟨by simp, fun _ => rfl, fun _ hp => by simp at hp⟩
      | false =>
        have hunset : flagSet s.async.dtor ≠ true := fun hf => by
          simpa [hstop] using h.stop hf
        exact ⟨by simp, fun hf => absurd hf hunset,
          fun hs _ => absurd (sentExit_flagSet hs) hunset⟩
    | pop m => exact ⟨by simp [Waiting.next, Waiting.phaseAfter, Async.next], h.stop, by
        simp [Waiting.next, Async.next]⟩
    | hand k m dev =>
      obtain ⟨⟨rest, hw⟩, -⟩ := ha
      refine h.frame Iff.rfl ?_ rfl rfl id
      simp [Waiting.next, Async.next, hw, Worker.advance]
    | skip k =>
      obtain ⟨⟨m, rest, hw⟩, -⟩ := ha
      refine h.frame Iff.rfl ?_ rfl rfl id
      simp [Waiting.next, Async.next, hw, Worker.advance]
    | finish m =>
      have hw : s.async.worker = .dispatching m [] := ha
      refine h.frame Iff.rfl ?_ rfl rfl id
      simp [Waiting.next, Async.next, hw]
    | destroy =>
      obtain ⟨hrun, -⟩ := ha
      refine ⟨h.inside, ?_, ?_⟩ <;>
        simp [Waiting.next, Async.next, hrun, Dtor.advance, flagSet, sentExit]
    | poll =>
      obtain ⟨i, hpoll⟩ := ha
      refine ⟨h.inside, ?_, ?_⟩ <;>
        rcases poll_cases env hpoll with ⟨hd, -⟩ | hd | hd <;>
          simp [Waiting.next, hd, flagSet, sentExit]
    | setStop =>
      obtain ⟨b, hpolled⟩ := ha
      refine ⟨h.inside, fun _ => rfl, ?_⟩
      simp [Waiting.next, Async.next, hpolled, Dtor.advance, sentExit]
    | pushExit m =>
      obtain ⟨⟨b, hstopped⟩, -⟩ := ha
      refine ⟨(notifyOne_ne_outside s.phase).trans h.inside, fun _ => ?_, fun _ _ => ?_⟩
      · exact h.stop (by simp [hstopped, flagSet])
      · simp [Waiting.next, Async.next]
    | join =>
      obtain ⟨⟨b, hjoining⟩, hexit⟩ := ha
      refine ⟨h.inside, fun _ => h.stop (by simp [hjoining, flagSet]), fun _ hw => ?_⟩
      exact absurd (hexit.symm.trans hw) (by simp)
    | call i c => exact h.frame Iff.rfl Iff.rfl rfl rfl id
    | sinkCall i o dev => exact h.frame Iff.rfl Iff.rfl rfl rfl id
    | queueEmpty i b => exact h.frame Iff.rfl Iff.rfl rfl rfl id

/-- An append to the queue, seen from the queue. -/
lemma reachable_push {q : LogQueue Unit} {p : CondQueue.Phase}
    (h : CondQueue.lts.Reachable (LogQueue.new Unit) q) (hp : q.phase = fun _ => p)
    (m : LogMessage) :
    CondQueue.lts.Reachable (LogQueue.new Unit)
      ⟨q.queue ++ [m], fun _ => Waiting.notifyOne p⟩ := by
  by_cases hasleep : p = .asleep
  · refine h.step_to (.push m (some ())) ?_ ?_
    · simp [CondQueue.lts, CondQueue.enabled, hp, hasleep]
    · simp only [CondQueue.lts, CondQueue.next, CondQueue.State.set, CondQueue.State.mk.injEq,
        true_and]
      ext c
      simp [Waiting.notifyOne, hasleep]
  · refine h.step_to (.push m none) ?_ ?_
    · simp [CondQueue.lts, CondQueue.enabled, hp, hasleep]
    · simp [CondQueue.lts, CondQueue.next, hp, Waiting.notifyOne, hasleep]

lemma set_unit (q : List LogMessage) (p p' : CondQueue.Phase) :
    CondQueue.State.set ⟨q, fun _ => p⟩ () p' = (⟨q, fun _ => p'⟩ : LogQueue Unit) := by
  simp only [CondQueue.State.set, CondQueue.State.mk.injEq, true_and]
  ext c
  simp

/-- **The projection.** What the threads of a `Logger` do to its queue are steps of a
`LogQueue`. -/
lemma queueView_step {a : WaitLabel ι} (h : Consistent s) (ha : Waiting.enabled a s)
    (hs : CondQueue.lts.Reachable (LogQueue.new Unit) s.queueView) :
    CondQueue.lts.Reachable (LogQueue.new Unit) (Waiting.next env a s).queueView := by
  cases a with
  | sleep =>
    obtain ⟨-, hact, hq⟩ := ha
    refine hs.step_to (.check ()) hact ?_
    simp [CondQueue.lts, CondQueue.next, Waiting.queueView, hq, Waiting.next, set_unit]
  | spurious => exact hs.step_to (.spurious ()) ha (set_unit s.async.queue s.phase .notified)
  | act a =>
    cases a with
    | push i m => exact reachable_push hs rfl m
    | pushExit m => exact reachable_push hs rfl m
    | test =>
      have hw : s.async.worker = .testing := ha
      have hout : s.phase = .outside := by
        by_contra hne
        exact absurd (h.inside.mp hne) (by simp [hw])
      cases hstop : s.async.stop with
      | true =>
        have hsame : (Waiting.next env (.act .test : WaitLabel ι) s).queueView = s.queueView := by
          simp [Waiting.queueView, Waiting.next, Waiting.phaseAfter, Async.next, hstop, hout]
        exact hsame ▸ hs
      | false =>
        refine hs.step_to (.enter ()) hout ?_
        simp [CondQueue.lts, CondQueue.next, Waiting.queueView, Waiting.next,
          Waiting.phaseAfter, Async.next, hstop, set_unit]
    | pop m =>
      obtain ⟨⟨-, hm⟩, hact⟩ := ha
      refine hs.step_to (.check ()) hact ?_
      cases hq : s.async.queue with
      | nil => simp [hq] at hm
      | cons m' rest =>
        simp [CondQueue.lts, CondQueue.next, Waiting.queueView, Waiting.next,
          Waiting.phaseAfter, Async.next, hq, set_unit]
    | _ => exact hs

omit [DecidableEq ι] in
lemma start_consistent (L : Logger) : Consistent (Waiting.start L : Waiting ι) :=
  ⟨by simp [Waiting.start, Async.start], by simp [Waiting.start, Async.start, flagSet],
    by simp [Waiting.start, Async.start, sentExit]⟩

lemma consistent_of_legal {L : Logger} {as : List (WaitLabel ι)}
    (h : (Waiting.lts env).Legal (Waiting.start L) as) :
    Consistent ((Waiting.lts env).run (Waiting.start L) as) ∧
      CondQueue.lts.Reachable (LogQueue.new Unit)
        ((Waiting.lts env).run (Waiting.start L) as).queueView :=
  h.invariant (p := fun s : Waiting ι =>
      Consistent s ∧ CondQueue.lts.Reachable (LogQueue.new Unit) s.queueView)
    ⟨start_consistent L, Lts.Reachable.refl _ _⟩
    fun _ _ hs ha => ⟨consistent_step hs.1 ha, queueView_step hs.1 ha hs.2⟩

omit [DecidableEq ι] in
/-- With the queue never left to a sleeper, the last message keeps the worker awake. -/
lemma wakesUp_of_consistent (h : Consistent s) (hq : CondQueue.NoLostWakeup s.queueView) :
    WakesUp s := by
  have hawake : sentExit s.async.dtor = true → s.phase ≠ .asleep := by
    intro hs hasleep
    have hpop : s.async.worker = .popping := h.inside.mp (by simp [hasleep])
    obtain ⟨c, hact⟩ := hq (h.left hs hpop) () hasleep
    exact CondQueue.active_ne_asleep hact hasleep
  refine ⟨hawake, fun hs hexit => ?_⟩
  cases hw : s.async.worker with
  | testing => exact ⟨.test, rfl, hw⟩
  | exited => exact absurd hw hexit
  | popping =>
    have hact : s.phase.Active := by
      have hin := h.inside.mpr hw
      have hno := hawake hs
      cases hp : s.phase <;> simp_all [CondQueue.Phase.Active]
    cases hqueue : s.async.queue with
    | nil => exact absurd hqueue (h.left hs hw)
    | cons m rest => exact ⟨.pop m, rfl, ⟨hw, by simp [hqueue]⟩, hact⟩
  | dispatching m rest =>
    cases rest with
    | nil => exact ⟨.finish m, rfl, hw⟩
    | cons k rest =>
      cases hk : s.async.logger.loggerSinkMap k with
      | none => exact ⟨.skip k, rfl, ⟨m, rest, hw⟩, hk⟩
      | some t => exact ⟨.hand k m Device.willing, rfl, ⟨rest, hw⟩, by simp [hk]⟩

end

/-- **No lost wake-up.** Whatever any number of threads do to a `LogQueue`, there is never
something to pop while one of them sleeps un-notified and no other is on the way; and in every
run of a `Logger` the background thread is not asleep once the destructor has set the stop
flag and pushed its last message, so that `join` waits for a thread that goes on. -/
theorem no_lost_wakeup {T ι : Type} [DecidableEq T] [DecidableEq ι]
    {qs : List (CondQueue.Step T LogMessage)} (hqs : CondQueue.lts.Legal (LogQueue.new T) qs)
    {env : Env} {L : Logger} {as : List (WaitLabel ι)}
    (has : (Waiting.lts env).Legal (Waiting.start L) as) :
    CondQueue.NoLostWakeup (CondQueue.lts.run (LogQueue.new T) qs) ∧
      WakesUp ((Waiting.lts env).run (Waiting.start L) as) := by
  obtain ⟨hcons, rs, hrs, hview⟩ := consistent_of_legal has
  have hqueue := CondQueue.noLostWakeup_of_legal hrs
  exact ⟨CondQueue.noLostWakeup_of_legal hqs, wakesUp_of_consistent hcons (hview ▸ hqueue)⟩

/-- Two consumers, the second of which takes what was meant for the first; and a `Logger`
that is destroyed while its background thread sleeps. -/
theorem no_lost_wakeup_destroyed :
    CondQueue.NoLostWakeup (CondQueue.lts.run (LogQueue.new Bool)
        [.enter true, .check true, .push (exitCall 0).message (some true), .enter false,
          .check false, .check true]) ∧
      WakesUp ((Waiting.lts Env.bare).run (Waiting.start Logger.console : Waiting Unit)
        [.act .test, .sleep, .act .destroy, .act .poll, .act .setStop,
          .act (.pushExit (exitCall 0).message)]) := by
  refine no_lost_wakeup ?_ ?_
  · simp [CondQueue.lts, LogQueue.new, CondQueue.start, CondQueue.enabled, CondQueue.next,
      CondQueue.State.set, CondQueue.Phase.Active]
  · simp [Waiting.lts, Waiting.start, Waiting.enabled, Waiting.next, Waiting.phaseAfter,
      Async.enabled, Async.next, Async.start, Dtor.advance, CondQueue.Phase.Active]
    exact ⟨0, rfl⟩

end Ealogger.Wakeup
