import Ealogger.Wakeup

/-!
The destructor of an asynchronous `Logger` returns.

Once it has been called there is only so much left to do: a hundred polls, the messages in the
queue and the one in hand, the stop flag, the last message, `join`. The background thread may
find the queue empty and fall asleep, but then somebody has to wake it up first. So every step
brings the end nearer, and as long as `join` has not returned some thread can make one.
-/

namespace Ealogger.Termination

open Wakeup Shutdown

variable {ι : Type} {env : Env} {s : Waiting ι}

/-! ### What is left to do -/

/-- The steps of the background thread until it is back in `pop`. -/
def ofWorker : Worker → ℕ
  | .testing => 2
  | .popping => 0
  | .dispatching _ rest => rest.length + 3
  | .exited => 0

/-- A thread that is awake in `pop` can still fall asleep. -/
def ofPhase : CondQueue.Phase → ℕ
  | .outside => 0
  | .awake => 1
  | .asleep => 0
  | .notified => 1

/-- The steps of the destructor, and those that its message costs the background thread. -/
def ofDtor : Dtor → ℕ
  | .running => 0
  | .polling i => 100 - i + 11
  | .polled _ => 10
  | .stopped _ => 9
  | .joining _ => 1
  | .joined _ => 0

def left (s : Waiting ι) : ℕ :=
  6 * s.async.queue.length + ofWorker s.async.worker + ofPhase s.phase + ofDtor s.async.dtor

/-- The wake-ups for no reason. -/
def spurious (as : List (WaitLabel ι)) : ℕ :=
  as.countP fun
    | .spurious => true
    | _ => false

/-- Nothing is left that has no bound. -/
structure Bounded (s : Waiting ι) : Prop where
  polls : ∀ i, s.async.dtor = .polling i → i ≤ 100
  keys : ∀ m rest, s.async.worker = .dispatching m rest → rest.length ≤ 3
  quiet : s.async.dtor = .running ∨ ∀ i, s.async.pending i = none

lemma ofPhase_le (p : CondQueue.Phase) : ofPhase p ≤ 1 := by
  cases p <;> simp [ofPhase]

lemma ofPhase_active {p : CondQueue.Phase} (h : p.Active) : ofPhase p = 1 := by
  rcases h with rfl | rfl <;> rfl

lemma ofPhase_notifyOne (p : CondQueue.Phase) : ofPhase (Waiting.notifyOne p) ≤ ofPhase p + 1 := by
  cases p <;> simp [Waiting.notifyOne, ofPhase]

lemma Bounded.ofWorker_le (h : Bounded s) : ofWorker s.async.worker ≤ 6 := by
  cases hw : s.async.worker with
  | dispatching m rest =>
    have hrest := h.keys m rest hw
    simp only [ofWorker]
    omega
  | _ => simp [ofWorker]

lemma ofDtor_le (d : Dtor) : ofDtor d ≤ 111 := by
  cases d with
  | polling i => simp only [ofDtor]; omega
  | _ => simp [ofDtor]

/-! ### One step -/

variable [DecidableEq ι] {a : WaitLabel ι}

lemma ofWorker_advance {w : Worker} {m : LogMessage} {k : LoggerSink} {rest : List LoggerSink}
    (hw : w = .dispatching m (k :: rest)) : ofWorker w.advance + 1 = ofWorker w := by
  subst hw
  simp [Worker.advance, ofWorker]

lemma left_poll (env : Env) {i : ℕ} (h : Bounded s) (hpoll : s.async.dtor = .polling i) :
    ofDtor (Async.next env .poll s.async).dtor + 1 ≤ ofDtor s.async.dtor := by
  have hi := h.polls i hpoll
  simp only [Async.next, hpoll, Dtor.advance]
  split
  · simp only [ofDtor]; omega
  · split
    · simp only [ofDtor]; omega
    · simp only [ofDtor]; omega

/-- **Every step counts**, but for a wake-up for no reason. -/
lemma left_step (env : Env) (h : Bounded s) (hd : s.async.dtor ≠ .running) (ha : Waiting.enabled a s)
    (hspur : a ≠ .spurious) : left (Waiting.next env a s) + 1 ≤ left s := by
  have hquiet := h.quiet.resolve_left hd
  cases a with
  | spurious => exact absurd rfl hspur
  | sleep =>
    have hact := ofPhase_active ha.2.1
    have hasleep : ofPhase .asleep = 0 := rfl
    simp only [left, Waiting.next, hasleep]
    omega
  | act a =>
    cases a with
    | call i c => exact absurd ha.2 hd
    | push i m =>
      have hp : s.async.pending i = some m := ha
      simp [hquiet i] at hp
    | sinkCall i o dev => exact absurd ha.2.1 hd
    | queueEmpty i b => exact absurd ha.2.1 hd
    | test =>
      have hw : s.async.worker = .testing := ha
      simp only [left, Waiting.next, Async.next, Waiting.phaseAfter, hw]
      cases s.async.stop <;> simp only [ofWorker, ofPhase, if_true, Bool.false_eq_true, if_false] <;>
        omega
    | pop m =>
      obtain ⟨⟨hw, hhead⟩, hact⟩ := ha
      obtain ⟨q, hq⟩ := List.head?_eq_some_iff.mp hhead
      have hphase := ofPhase_active hact
      have hout : ofPhase .outside = 0 := rfl
      simp only [left, Waiting.next, Async.next, Waiting.phaseAfter, hw, hq, hout, ofWorker,
        List.tail_cons, List.length_cons, sinkKeys, List.length_nil]
      omega
    | hand k m dev =>
      obtain ⟨⟨rest, hw⟩, -⟩ := ha
      have hadv := ofWorker_advance hw
      simp only [left, Waiting.next, Async.next, Waiting.phaseAfter]
      omega
    | skip k =>
      obtain ⟨⟨m, rest, hw⟩, -⟩ := ha
      have hadv := ofWorker_advance hw
      simp only [left, Waiting.next, Async.next, Waiting.phaseAfter]
      omega
    | finish m =>
      have hw : s.async.worker = .dispatching m [] := ha
      simp only [left, Waiting.next, Async.next, Waiting.phaseAfter, hw, ofWorker, List.length_nil]
      omega
    | destroy => exact absurd ha.1 hd
    | poll =>
      obtain ⟨i, hpoll⟩ := ha
      have hstep := left_poll env h hpoll
      simp only [left, Waiting.next, Waiting.phaseAfter]
      simp only [Async.next] at hstep ⊢
      omega
    | setStop =>
      obtain ⟨b, hb⟩ := ha
      simp only [left, Waiting.next, Async.next, Waiting.phaseAfter, hb, Dtor.advance, ofDtor]
      omega
    | pushExit m =>
      obtain ⟨⟨b, hb⟩, -⟩ := ha
      have hnotify := ofPhase_notifyOne s.phase
      simp only [left, Waiting.next, Async.next, Waiting.phaseAfter, hb, Dtor.advance, ofDtor,
        List.length_append, List.length_cons, List.length_nil]
      omega
    | join =>
      obtain ⟨⟨b, hb⟩, -⟩ := ha
      simp only [left, Waiting.next, Async.next, Waiting.phaseAfter, hb, Dtor.advance, ofDtor]
      omega

lemma left_spurious (env : Env) (ha : Waiting.enabled (.spurious : WaitLabel ι) s) :
    left (Waiting.next env .spurious s) ≤ left s + 1 := by
  have hp : s.phase = .asleep := ha
  simp only [left, Waiting.next, hp, ofPhase]
  omega

/-! ### Runs -/

omit [DecidableEq ι] in
lemma start_bounded (L : Logger) : Bounded (Waiting.start L : Waiting ι) :=
  ⟨by simp [Waiting.start, Async.start], by simp [Waiting.start, Async.start], Or.inl rfl⟩

omit [DecidableEq ι] in
/-- A step that starts neither a poll nor a dispatch. -/
lemma Bounded.frame (h : Bounded s) {s' : Waiting ι}
    (hdtor : ∀ i, s'.async.dtor = .polling i → s.async.dtor = .polling i)
    (hworker : ∀ m rest, s'.async.worker = .dispatching m rest →
      s.async.worker = .dispatching m rest)
    (hquiet : s'.async.dtor = .running ∨ ∀ i, s'.async.pending i = none) : Bounded s' :=
  ⟨fun i hi => h.polls i (hdtor i hi), fun m rest hw => h.keys m rest (hworker m rest hw), hquiet⟩

omit [DecidableEq ι] in
lemma Bounded.advance (h : Bounded s) {m : LogMessage} {k : LoggerSink} {rest : List LoggerSink}
    (hw : s.async.worker = .dispatching m (k :: rest)) {L : Logger} :
    Bounded { s with async := { s.async with logger := L, worker := s.async.worker.advance } } := by
  refine ⟨h.polls, fun m' rest' hw' => ?_, h.quiet⟩
  have hlength := h.keys m _ hw
  simp only [hw, Worker.advance, Worker.dispatching.injEq] at hw'
  rw [List.length_cons] at hlength
  rw [← hw'.2]
  omega

lemma bounded_step (h : Bounded s) (ha : Waiting.enabled a s) :
    Bounded (Waiting.next env a s) := by
  cases a with
  | sleep => exact ⟨h.polls, h.keys, h.quiet⟩
  | spurious => exact ⟨h.polls, h.keys, h.quiet⟩
  | act a =>
    cases a with
    | call i c => exact ⟨h.polls, h.keys, Or.inl ha.2⟩
    | push i m =>
      have hp : s.async.pending i = some m := ha
      have hrun : s.async.dtor = .running := h.quiet.resolve_right fun hq => by simp [hq i] at hp
      exact ⟨h.polls, h.keys, Or.inl hrun⟩
    | sinkCall i o dev => exact ⟨h.polls, h.keys, h.quiet⟩
    | queueEmpty i b => exact ⟨h.polls, h.keys, h.quiet⟩
    | test =>
      refine h.frame (fun _ => id) (fun m rest hw => ?_) h.quiet
      simp only [Waiting.next, Async.next] at hw
      cases hstop : s.async.stop <;> simp [hstop] at hw
    | pop m =>
      refine ⟨h.polls, fun m' rest hw => ?_, h.quiet⟩
      simp only [Waiting.next, Async.next, Worker.dispatching.injEq] at hw
      simp [← hw.2, sinkKeys]
    | hand k m dev =>
      obtain ⟨⟨rest, hw⟩, -⟩ := ha
      exact h.advance hw
    | skip k =>
      obtain ⟨⟨m, rest, hw⟩, -⟩ := ha
      exact h.advance hw
    | finish m =>
      refine h.frame (fun _ => id) (fun m rest hw => ?_) h.quiet
      simp [Waiting.next, Async.next] at hw
    | destroy =>
      obtain ⟨hrun, hquiet⟩ := ha
      refine ⟨fun i hi => ?_, h.keys, Or.inr hquiet⟩
      simp only [Waiting.next, Async.next, hrun, Dtor.advance, Dtor.polling.injEq] at hi
      omega
    | poll =>
      obtain ⟨i, hpoll⟩ := ha
      have hi := h.polls i hpoll
      refine ⟨fun j hj => ?_, h.keys, Or.inr (h.quiet.resolve_left (by simp [hpoll]))⟩
      simp only [Waiting.next, Async.next, hpoll, Dtor.advance] at hj
      split at hj
      · cases hj
      · split at hj
        · cases hj
        · obtain rfl := Dtor.polling.inj hj
          omega
    | setStop =>
      obtain ⟨b, hb⟩ := ha
      refine h.frame (fun i hi => ?_) (fun _ _ => id) (Or.inr (h.quiet.resolve_left (by simp [hb])))
      simp [Waiting.next, Async.next, hb, Dtor.advance] at hi
    | pushExit m =>
      obtain ⟨⟨b, hb⟩, -⟩ := ha
      refine h.frame (fun i hi => ?_) (fun _ _ => id) (Or.inr (h.quiet.resolve_left (by simp [hb])))
      simp [Waiting.next, Async.next, hb, Dtor.advance] at hi
    | join =>
      obtain ⟨⟨b, hb⟩, -⟩ := ha
      refine h.frame (fun i hi => ?_) (fun _ _ => id) (Or.inr (h.quiet.resolve_left (by simp [hb])))
      simp [Waiting.next, Async.next, hb, Dtor.advance] at hi

/-- The destructor does not start again. -/
lemma dtor_step (hd : s.async.dtor ≠ .running) (ha : Waiting.enabled a s) :
    (Waiting.next env a s).async.dtor ≠ .running := by
  cases a with
  | sleep => exact hd
  | spurious => exact hd
  | act a =>
    cases a with
    | destroy => exact absurd ha.1 hd
    | poll =>
      obtain ⟨i, hpoll⟩ := ha
      rcases poll_cases env hpoll with ⟨hp, -⟩ | hp | hp <;> simp [Waiting.next, hp]
    | setStop =>
      obtain ⟨b, hb⟩ := ha
      simp [Waiting.next, Async.next, hb, Dtor.advance]
    | pushExit m =>
      obtain ⟨⟨b, hb⟩, -⟩ := ha
      simp [Waiting.next, Async.next, hb, Dtor.advance]
    | join =>
      obtain ⟨⟨b, hb⟩, -⟩ := ha
      simp [Waiting.next, Async.next, hb, Dtor.advance]
    | _ => exact hd

omit [DecidableEq ι] in
lemma spurious_cons (a : WaitLabel ι) (as : List (WaitLabel ι)) :
    spurious (a :: as) = spurious as + spurious [a] := by
  simp [spurious, List.countP_cons]

/-- A run after the call of the destructor uses up what was left to do. -/
lemma length_le_left {bs : List (WaitLabel ι)} (h : Bounded s) (hd : s.async.dtor ≠ .running)
    (hbs : (Waiting.lts env).Legal s bs) :
    bs.length + left ((Waiting.lts env).run s bs) ≤ left s + 2 * spurious bs := by
  induction bs generalizing s with
  | nil => simp [spurious]
  | cons b bs ih =>
    obtain ⟨hb, hrest⟩ := hbs
    have hih := ih (bounded_step h hb) (dtor_step hd hb) hrest
    have hcount := spurious_cons b bs
    rw [List.length_cons, Lts.run_cons]
    by_cases hspur : b = .spurious
    · subst hspur
      have hstep := left_spurious env hb
      have hone : spurious [(.spurious : WaitLabel ι)] = 1 := rfl
      simp only [Waiting.lts] at hih hstep ⊢
      omega
    · have hstep := left_step env h hd hb hspur
      simp only [Waiting.lts] at hih hstep ⊢
      omega

omit [DecidableEq ι] in
/-- Somebody can make a step until `join` has returned. -/
lemma goesOn_of_wakesUp (hwakes : WakesUp s) (hd : s.async.dtor ≠ .running)
    (hjoined : ∀ b, s.async.dtor ≠ .joined b) :
    ∃ a : WaitLabel ι, a ≠ .spurious ∧ Waiting.enabled a s := by
  cases hdtor : s.async.dtor with
  | running => exact absurd hdtor hd
  | polling i => exact ⟨.act .poll, by simp, i, hdtor⟩
  | polled b => exact ⟨.act .setStop, by simp, b, hdtor⟩
  | stopped b => exact ⟨.act (.pushExit (exitCall 0).message), by simp, ⟨b, hdtor⟩, 0, rfl⟩
  | joining b =>
    by_cases hexit : s.async.worker = .exited
    · exact ⟨.act .join, by simp, ⟨b, hdtor⟩, hexit⟩
    · obtain ⟨a, -, ha⟩ := hwakes.goesOn (by rw [hdtor]; rfl) hexit
      exact ⟨.act a, by simp, ha⟩
  | joined b => exact absurd hdtor (hjoined b)

/-- The run is no longer than the queue allows, and does not get stuck before `join` has
returned. -/
structure Returns (env : Env) (s : Waiting ι) (bs : List (WaitLabel ι)) : Prop where
  bounded : bs.length ≤ 6 * s.async.queue.length + 118 + 2 * spurious bs
  goesOn : (∀ b, ((Waiting.lts env).run s bs).async.dtor ≠ .joined b) →
    ∃ a, a ≠ .spurious ∧ Waiting.enabled a ((Waiting.lts env).run s bs)

/-- **The destructor returns.** From any state in which it has been called, whatever the
scheduler does: apart from wake-ups for no reason there is only a bounded number of steps left
for all threads together, six for each message in the queue and a constant; and until `join` has
returned there always is one. -/
theorem returns_of_destroyed (env : Env) (L : Logger) (as bs : List (WaitLabel ι))
    (h : (Waiting.lts env).Legal (Waiting.start L) (as ++ bs))
    (hd : ((Waiting.lts env).run (Waiting.start L) as).async.dtor ≠ .running) :
    Returns env ((Waiting.lts env).run (Waiting.start L) as) bs := by
  obtain ⟨has, hbs⟩ := (Lts.legal_append _ _ _ _).mp h
  have hbounded : Bounded ((Waiting.lts env).run (Waiting.start L) as) :=
    has.invariant (start_bounded L) fun _ _ hs ha => bounded_step hs ha
  constructor
  · have hlength := length_le_left hbounded hd hbs
    have hworker := hbounded.ofWorker_le
    have hphase := ofPhase_le ((Waiting.lts env).run (Waiting.start L) as).phase
    have hdtor := ofDtor_le ((Waiting.lts env).run (Waiting.start L) as).async.dtor
    unfold left at hlength
    omega
  · intro hjoined
    obtain ⟨hcons, rs, hrs, hview⟩ := consistent_of_legal h
    have hqueue := CondQueue.noLostWakeup_of_legal hrs
    have hwakes := wakesUp_of_consistent hcons (hview ▸ hqueue)
    rw [Lts.run_append] at hwakes
    refine goesOn_of_wakesUp hwakes ?_ hjoined
    exact hbs.invariant (p := fun s : Waiting ι => s.async.dtor ≠ .running) hd
      fun _ _ hd ha => dtor_step hd ha

/-- The background thread sleeps in `pop` when the destructor is called. -/
theorem returns_of_destroyed_asleep :
    Returns Env.bare
      ((Waiting.lts Env.bare).run (Waiting.start Logger.console : Waiting Unit)
        [.act .test, .sleep, .act .destroy])
      [.act .poll, .act .setStop, .act (.pushExit (exitCall 0).message)] := by
  refine returns_of_destroyed Env.bare Logger.console _ _ ?_ (by decide)
  exact ⟨rfl, ⟨rfl, Or.inl rfl, rfl⟩, ⟨rfl, fun _ => rfl⟩, ⟨0, rfl⟩, ⟨true, rfl⟩,
    ⟨⟨true, rfl⟩, 0, rfl⟩, trivial⟩

end Ealogger.Termination
