import Ealogger.Delivery

/-!
What the destructor of an asynchronous `Logger` leaves behind.

It polls the queue, sets the stop flag, pushes one more message to wake up the background
thread, and joins it. The background thread tests the flag before it waits for a message:
once the flag is set it can end the message it holds or pop one more, and no second one.
-/

namespace Ealogger.Shutdown

open Delivery

variable {ι : Type} [DecidableEq ι] {env : Env} {L : Logger}

/-- The messages of the clients in the order in which they were pushed. -/
def fromClients (as : List (Label ι)) : List LogMessage :=
  as.filterMap fun
    | .push _ m => some m
    | _ => none

/-- The messages the destructor has pushed. -/
def exits (as : List (Label ι)) : List LogMessage :=
  as.filterMap fun
    | .pushExit m => some m
    | _ => none

/-- The poll loop has been left because the queue was empty. -/
def sawEmpty : Dtor → Bool
  | .running => false
  | .polling _ => false
  | .polled b => b
  | .stopped b => b
  | .joining b => b
  | .joined b => b

/-- How many messages the background thread may complete once the stop flag is set. -/
def budget : Worker → ℕ
  | .testing => 0
  | .popping => 1
  | .dispatching _ _ => 1
  | .exited => 0

/-- What is known when `join` has returned: the messages completely dispatched are the first
ones of all; they are all of the clients' if the queue was seen empty; and at most one of them
was completed after the stop flag had been set. -/
structure Drained (as : List (Label ι)) (saw : Bool) : Prop where
  cut : ∃ now, completed as <+: fromClients as ++ [(exitCall now).message]
  all : saw = true → fromClients as <+: completed as
  last : ∀ pre post, as = pre ++ .setStop :: post → (completed post).length ≤ 1

/-! ### After the stop flag -/

omit [DecidableEq ι] in
lemma completed_cons (a : Label ι) (as : List (Label ι)) :
    completed (a :: as) = a.completes.toList ++ completed as := by
  cases h : a.completes <;> simp [completed, h]

lemma budget_advance (w : Worker) : budget w.advance = budget w := by
  rcases w with _ | _ | ⟨m, _ | ⟨k, rest⟩⟩ | _ <;> rfl

lemma step_budget (env : Env) {s : Async ι} {a : Label ι} (ha : Async.enabled a s)
    (hs : s.stop = true) :
    a.completes.toList.length + budget (Async.next env a s).worker ≤ budget s.worker ∧
      (Async.next env a s).stop = true := by
  cases a with
  | test => simp [Label.completes, Async.next, hs, budget]
  | pop m => simp [Label.completes, Async.next, hs, budget, ha.1]
  | finish m =>
    have hw : s.worker = .dispatching m [] := ha
    simp [Label.completes, Async.next, hs, budget, hw]
  | hand k m dev => simp [Label.completes, Async.next, hs, budget_advance]
  | skip k => simp [Label.completes, Async.next, hs, budget_advance]
  | _ => simp [Label.completes, Async.next, hs]

lemma completed_le_budget {s : Async ι} {as : List (Label ι)}
    (h : (Async.lts env).Legal s as) (hs : s.stop = true) :
    (completed as).length ≤ budget s.worker := by
  induction as generalizing s with
  | nil => exact Nat.zero_le _
  | cons a as ih =>
    obtain ⟨hstep, hstop⟩ := step_budget env h.1 hs
    have hrest := ih h.2 hstop
    rw [completed_cons, List.length_append]
    exact le_trans (Nat.add_le_add_left hrest _) hstep

lemma budget_le_one (w : Worker) : budget w ≤ 1 := by
  cases w <;> simp [budget]

/-! ### The steps of the destructor -/

/-- The message of the destructor is in the queue or has been there. -/
def sentExit : Dtor → Bool
  | .joining _ => true
  | .joined _ => true
  | _ => false

/-- Beside the destructor no client is active, its message is the last one, and when it has
seen the queue empty the messages of the clients have been taken. -/
structure Closing (as : List (Label ι)) (s : Async ι) : Prop where
  quiet : s.dtor = .running ∨ ∀ i, s.pending i = none
  order : (pushed as).map Prod.snd = fromClients as ++ exits as
  exit : sentExit s.dtor = true → ∃ now, exits as = [(exitCall now).message]
  noExit : sentExit s.dtor = false → exits as = []
  joined : ∀ b, s.dtor = .joined b → s.worker = .exited
  saw : sawEmpty s.dtor = true → fromClients as <+: taken as

section Snoc

variable (as : List (Label ι)) (a : Label ι)

omit [DecidableEq ι] in
@[simp] lemma fromClients_snoc : fromClients (as ++ [a]) = fromClients as ++ fromClients [a] := by
  simp [fromClients]

omit [DecidableEq ι] in
@[simp] lemma exits_snoc : exits (as ++ [a]) = exits as ++ exits [a] := by
  simp [exits]

end Snoc

/-- The loop ends because the queue is empty, or because it has gone round often enough. -/
lemma poll_cases (env : Env) {s : Async ι} {i : ℕ} (hpoll : s.dtor = .polling i) :
    (Async.next env .poll s).dtor = .polled true ∧ s.queue = [] ∨
      (Async.next env .poll s).dtor = .polled false ∨
      (Async.next env .poll s).dtor = .polling (i + 1) := by
  simp only [Async.next, hpoll, Dtor.advance, List.isEmpty_iff]
  split
  · next hq => exact Or.inl ⟨rfl, hq⟩
  · split
    · exact Or.inr (Or.inl rfl)
    · exact Or.inr (Or.inr rfl)

omit [DecidableEq ι] in
/-- A step of the other threads, which puts nothing into the queue. -/
lemma Closing.frame {as : List (Label ι)} {s s' : Async ι} {a : Label ι} (h : Closing as s)
    (hdtor : s'.dtor = s.dtor) (hquiet : s.dtor = .running ∨ s'.pending = s.pending)
    (hpush : a.pushes = none) (hclient : fromClients [a] = []) (hexit : exits [a] = [])
    (hworker : s.worker = .exited → s'.worker = .exited) : Closing (as ++ [a]) s' := by
  constructor
  · rw [hdtor]
    rcases hquiet with hrun | hp
    · exact Or.inl hrun
    · rw [hp]; exact h.quiet
  · simpa [hpush, hclient, hexit] using h.order
  · simpa [hdtor, hexit] using h.exit
  · simpa [hdtor, hexit] using h.noExit
  · intro b hb
    exact hworker (h.joined b (hdtor ▸ hb))
  · intro hs
    rw [fromClients_snoc, hclient, List.append_nil, taken_snoc]
    exact (h.saw (hdtor ▸ hs)).trans (List.prefix_append _ _)

omit [DecidableEq ι] in
/-- A step of the destructor that puts nothing into the queue either. -/
lemma Closing.advance {as : List (Label ι)} {s s' : Async ι} {a : Label ι} (h : Closing as s)
    (hquiet : ∀ i, s'.pending i = none) (hpush : a.pushes = none) (hclient : fromClients [a] = [])
    (hexit : exits [a] = []) (hsent : sentExit s'.dtor = sentExit s.dtor)
    (hjoined : ∀ b, s'.dtor = .joined b → s'.worker = .exited)
    (hsaw : sawEmpty s'.dtor = true → fromClients as <+: taken as) : Closing (as ++ [a]) s' := by
  refine ⟨Or.inr hquiet, ?_, ?_, ?_, hjoined, fun hs => ?_⟩
  · simpa [hpush, hclient, hexit] using h.order
  · simpa [hsent, hexit] using h.exit
  · simpa [hsent, hexit] using h.noExit
  · rw [fromClients_snoc, hclient, List.append_nil, taken_snoc]
    exact (hsaw hs).trans (List.prefix_append _ _)

lemma closing_push {as : List (Label ι)} {s : Async ι} {i : ι} {m : LogMessage}
    (h : Closing as s) (ha : Async.enabled (.push i m) s) :
    Closing (as ++ [.push i m]) (Async.next env (.push i m) s) := by
  have hp : s.pending i = some m := ha
  have hrun : s.dtor = .running := h.quiet.resolve_right fun hq => by simp [hq i] at hp
  have hnone : exits as = [] := h.noExit (by rw [hrun]; rfl)
  refine ⟨Or.inl hrun, ?_, fun hs => ?_, fun _ => ?_, fun b hb => ?_, fun hs => ?_⟩
  · rw [pushed_snoc, fromClients_snoc, exits_snoc, List.map_append, h.order, hnone]
    simp [Label.pushes, fromClients, exits]
  · simp [Async.next, hrun, sentExit] at hs
  · rw [exits_snoc, hnone]; rfl
  · simp [Async.next, hrun] at hb
  · simp [Async.next, hrun, sawEmpty] at hs

lemma closing_poll {as : List (Label ι)} {s : Async ι} (hacc : Accounted as s)
    (h : Closing as s) (ha : Async.enabled .poll s) :
    Closing (as ++ [.poll]) (Async.next env .poll s) := by
  obtain ⟨i, hpoll⟩ := ha
  have hquiet := h.quiet.resolve_left (by simp [hpoll])
  have hnone : exits as = [] := h.noExit (by rw [hpoll]; rfl)
  rcases poll_cases env hpoll with ⟨hd, hq⟩ | hd | hd
  · refine h.advance hquiet rfl rfl rfl (by simp [hd, hpoll, sentExit])
      (fun b hb => by simp [hd] at hb) fun _ => ?_
    -- everything pushed so far has been taken
    have hfifo := hacc.fifo
    rw [hq, List.append_nil, h.order, hnone, List.append_nil] at hfifo
    rw [hfifo]
  · exact h.advance hquiet rfl rfl rfl (by simp [hd, hpoll, sentExit])
      (fun b hb => by simp [hd] at hb) fun hs => by simp [hd, sawEmpty] at hs
  · exact h.advance hquiet rfl rfl rfl (by simp [hd, hpoll, sentExit])
      (fun b hb => by simp [hd] at hb) fun hs => by simp [hd, sawEmpty] at hs

lemma closing_pushExit {as : List (Label ι)} {s : Async ι} {m : LogMessage} (h : Closing as s)
    (ha : Async.enabled (.pushExit m) s) :
    Closing (as ++ [.pushExit m]) (Async.next env (.pushExit m) s) := by
  obtain ⟨⟨b, hb⟩, now, rfl⟩ := ha
  have hquiet := h.quiet.resolve_left (by simp [hb])
  have hnone : exits as = [] := h.noExit (by rw [hb]; rfl)
  refine ⟨Or.inr hquiet, ?_, fun _ => ⟨now, ?_⟩, fun hs => ?_, fun b' hb' => ?_, fun hs => ?_⟩
  · rw [pushed_snoc, fromClients_snoc, exits_snoc, List.map_append, h.order, hnone]
    simp [Label.pushes, fromClients, exits]
  · rw [exits_snoc, hnone]; rfl
  · simp [Async.next, hb, Dtor.advance, sentExit] at hs
  · simp [Async.next, hb, Dtor.advance] at hb'
  · have hsaw := h.saw (by simpa [Async.next, hb, Dtor.advance, sawEmpty] using hs)
    simpa [fromClients, Label.takes] using hsaw

/-- **One step.** -/
theorem closing_snoc {as : List (Label ι)} {s : Async ι} {a : Label ι} (hacc : Accounted as s)
    (h : Closing as s) (ha : Async.enabled a s) : Closing (as ++ [a]) (Async.next env a s) := by
  cases a with
  | call i c => exact h.frame rfl (Or.inl ha.2) rfl rfl rfl id
  | push i m => exact closing_push h ha
  | sinkCall i o dev => exact h.frame rfl (Or.inr rfl) rfl rfl rfl id
  | queueEmpty i b => exact h.frame rfl (Or.inr rfl) rfl rfl rfl id
  | test =>
    have hw : s.worker = .testing := ha
    exact h.frame rfl (Or.inr rfl) rfl rfl rfl fun he => by simp [hw] at he
  | pop m => exact h.frame rfl (Or.inr rfl) rfl rfl rfl fun he => by simp [ha.1] at he
  | hand k m dev =>
    obtain ⟨⟨rest, hw⟩, -⟩ := ha
    exact h.frame rfl (Or.inr rfl) rfl rfl rfl fun he => by simp [hw] at he
  | skip k =>
    obtain ⟨⟨m, rest, hw⟩, -⟩ := ha
    exact h.frame rfl (Or.inr rfl) rfl rfl rfl fun he => by simp [hw] at he
  | finish m =>
    have hw : s.worker = .dispatching m [] := ha
    exact h.frame rfl (Or.inr rfl) rfl rfl rfl fun he => by simp [hw] at he
  | destroy =>
    obtain ⟨hrun, hquiet⟩ := ha
    refine h.advance hquiet rfl rfl rfl ?_ (fun b hb => ?_) fun hs => ?_
    · simp [Async.next, hrun, Dtor.advance, sentExit]
    · simp [Async.next, hrun, Dtor.advance] at hb
    · simp [Async.next, hrun, Dtor.advance, sawEmpty] at hs
  | poll => exact closing_poll hacc h ha
  | setStop =>
    obtain ⟨b, hb⟩ := ha
    have hquiet := h.quiet.resolve_left (by simp [hb])
    refine h.advance hquiet rfl rfl rfl ?_ (fun b' hb' => ?_) fun hs => h.saw ?_
    · simp [Async.next, hb, Dtor.advance, sentExit]
    · simp [Async.next, hb, Dtor.advance] at hb'
    · simpa [Async.next, hb, Dtor.advance, sawEmpty] using hs
  | pushExit m => exact closing_pushExit h ha
  | join =>
    obtain ⟨⟨b, hb⟩, hexited⟩ := ha
    have hquiet := h.quiet.resolve_left (by simp [hb])
    refine h.advance hquiet rfl rfl rfl ?_ (fun _ _ => hexited) fun hs => h.saw ?_
    · simp [Async.next, hb, Dtor.advance, sentExit]
    · simpa [Async.next, hb, Dtor.advance, sawEmpty] using hs

/-! ### Runs -/

omit [DecidableEq ι] in
lemma start_closing : Closing ([] : List (Label ι)) (Async.start L) := by
  constructor <;> simp [Async.start, pushed, fromClients, exits, sentExit, sawEmpty]

lemma closing_of_legal {as : List (Label ι)} (h : (Async.lts env).Legal (Async.start L) as) :
    Closing as ((Async.lts env).run (Async.start L) as) :=
  h.history (p := Closing) start_closing
    fun _ _ hlegal has ha => closing_snoc (accounted_of_legal hlegal) has ha

/-- **Shutdown.** In every run after which `join` has returned, with any number of polls and
any interleaving with the background thread. -/
theorem drained_of_joined (env : Env) (L : Logger) (as : List (Label ι)) (saw : Bool)
    (h : (Async.lts env).Legal (Async.start L) as)
    (hjoined : ((Async.lts env).run (Async.start L) as).dtor = .joined saw) :
    Drained as saw := by
  have hacc := accounted_of_legal h
  have hclosing := closing_of_legal h
  have hdone : taken as = completed as := by
    rw [hacc.inHand, hclosing.joined saw hjoined]
    exact List.append_nil _
  refine ⟨?_, fun hsaw => ?_, fun pre post has => ?_⟩
  · obtain ⟨now, hexit⟩ := hclosing.exit (by rw [hjoined]; rfl)
    refine ⟨now, ?_⟩
    rw [← hexit, ← hclosing.order, ← hacc.fifo, hdone]
    exact List.prefix_append _ _
  · rw [← hdone]
    exact hclosing.saw (by rw [hjoined]; exact hsaw)
  · subst has
    obtain ⟨-, -, hpost⟩ := (Lts.legal_append _ _ _ _).mp h
    exact le_trans (completed_le_budget hpost rfl) (budget_le_one _)

/-- A message is dispatched, the queue is seen empty while the background thread waits in
`pop`, and the message of the destructor is dispatched after the stop flag. -/
def quietShutdown : List (Label Unit) :=
  let m := (LogCall.plain 0 [] "a".toList .ealInfo).message
  let bye := (exitCall 0).message
  [.call () (.plain 0 [] "a".toList .ealInfo), .push () m, .test, .pop m,
    .hand .ealConsole m Device.willing, .skip .ealSyslog, .skip .ealFileSimple, .finish m, .test,
    .destroy, .poll, .setStop, .pushExit bye, .pop bye, .hand .ealConsole bye Device.willing,
    .skip .ealSyslog, .skip .ealFileSimple, .finish bye, .test, .join]

theorem drained_of_joined_quiet : Drained quietShutdown true := by
  refine drained_of_joined Env.bare Logger.console quietShutdown true ?_ rfl
  exact ⟨⟨rfl, rfl⟩, rfl, rfl, ⟨rfl, rfl⟩, ⟨⟨_, rfl⟩, rfl⟩, ⟨⟨_, _, rfl⟩, rfl⟩,
    ⟨⟨_, _, rfl⟩, rfl⟩, rfl, rfl, ⟨rfl, fun _ => rfl⟩, ⟨0, rfl⟩, ⟨true, rfl⟩,
    ⟨⟨true, rfl⟩, 0, rfl⟩, ⟨rfl, rfl⟩, ⟨⟨_, rfl⟩, rfl⟩, ⟨⟨_, _, rfl⟩, rfl⟩,
    ⟨⟨_, _, rfl⟩, rfl⟩, rfl, rfl, ⟨⟨true, rfl⟩, rfl⟩, trivial⟩

end Ealogger.Shutdown
