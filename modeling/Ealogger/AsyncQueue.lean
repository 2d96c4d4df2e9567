import Ealogger.QueueLock
import Ealogger.Wakeup

/-!
The asynchronous `Logger` with its queue statement by statement.

In `Async` and `Waiting` the clients, the background thread and the destructor push, pop and ask
for `empty` in one step each. Here they go through these members one statement after the other,
with the mutex and the condition variable of the queue, while the other threads go on. Every run
is one of `Waiting`, with the same sinks and the same messages on their way; and when nothing
more happens by itself, there is no message left on its way.
-/

namespace Ealogger.AsyncQueue

open QueueLock (Ptr Stage)
open Wakeup (Waiting WaitLabel Consistent)

/-- The threads that use the queue. -/
inductive Who (ι : Type)
  | client (i : ι)
  | worker
  | dtor
  deriving DecidableEq

/-- Where the threads are outside the members of the queue, and the queue. What `rest` has for a
queue is not used and stays empty. -/
structure State (ι : Type) where
  rest : Async ι
  logMsgQueue : QueueLock.State (Who ι)

inductive Step (ι : Type)
  | act (a : Label ι)
  | queue (l : QueueLock.Label (Who ι))

variable {ι : Type} [DecidableEq ι]

/-- A step for which no member of the queue is called; whose step it is has returned from there.
The `Logger` is not destroyed before the clients are back. -/
def Free (a : Label ι) (q : QueueLock.State (Who ι)) : Prop :=
  match a with
  | .call i _ => q.point (.client i) = .outside
  | .sinkCall i _ _ => q.point (.client i) = .outside
  | .test => q.point .worker = .outside
  | .hand _ _ _ => q.point .worker = .outside
  | .skip _ => q.point .worker = .outside
  | .finish _ => q.point .worker = .outside
  | .destroy => q.point .dtor = .outside ∧ ∀ i, q.point (.client i) = .outside
  | .setStop => q.point .dtor = .outside
  | .join => q.point .dtor = .outside
  | _ => False

/-- The calls that the threads make where they are. -/
def May (s : Async ι) : Who ι → QueueLock.Call → Prop
  | .client i, .push p => ∃ m, p = some m ∧ s.pending i = some m
  | .client i, .empty => s.pending i = none ∧ s.dtor = .running
  | .worker, .pop => s.worker = .popping
  | .dtor, .empty => ∃ i, s.dtor = .polling i
  | .dtor, .push p => (∃ b, s.dtor = .stopped b) ∧ ∃ now, p = some (exitCall now).message
  | _, _ => False

def enabled (x : Step ι) (s : State ι) : Prop :=
  match x with
  | .act a => Free a s.logMsgQueue ∧ Async.enabled a s.rest
  | .queue (.call w c) => QueueLock.enabled (.call w c) s.logMsgQueue ∧ May s.rest w c
  | .queue l => QueueLock.enabled l s.logMsgQueue

/-- Where a thread goes on when its call, which takes effect now, has returned. -/
def settle (l : QueueLock.Label (Who ι)) (s : Async ι) : Async ι :=
  match l with
  | .notifyOne (.client i) _ _ => { s with pending := Function.update s.pending i none }
  | .notifyOne .dtor _ _ => { s with dtor := s.dtor.advance false }
  | .front .worker (some m) => { s with worker := .dispatching m sinkKeys }
  | .isEmpty .dtor b => { s with dtor := s.dtor.advance b }
  | _ => s

def next (env : Env) (x : Step ι) (s : State ι) : State ι :=
  match x with
  | .act a => { s with rest := Async.next env a s.rest }
  | .queue l => ⟨settle l s.rest, QueueLock.next l s.logMsgQueue⟩

def lts (env : Env) : Lts (State ι) (Step ι) := ⟨enabled, next env⟩

def start (L : Logger) : State ι := ⟨Async.start L, QueueLock.start⟩

/-- The step of `Waiting` that a statement is. -/
def atomic : Step ι → List (WaitLabel ι)
  | .act a => [.act a]
  | .queue (.notifyOne (.client i) (some m) _) => [.act (.push i m)]
  | .queue (.notifyOne .dtor (some m) _) => [.act (.pushExit m)]
  | .queue (.front .worker (some m)) => [.act (.pop m)]
  | .queue (.isEmpty (.client i) b) => [.act (.queueEmpty i b)]
  | .queue (.isEmpty .dtor _) => [.act .poll]
  | .queue (.wait .worker) => [.sleep]
  | .queue (.spurious .worker) => [.spurious]
  | _ => []

/-- A thread that is inside a member of the queue, before its call takes effect, is where it
makes this call. -/
def Inside (s : Async ι) (w : Who ι) : Stage → Prop
  | .before c => May s w c
  | _ => True

/-- What a state is in `Waiting`. -/
structure Explains (s : State ι) (t : Waiting ι) : Prop where
  rest : s.rest = { t.async with queue := [] }
  queue : ∃ a, QueueLock.Refines s.logMsgQueue a ∧ a.queue = t.async.queue.map some
  inside : ∀ w, Inside s.rest w (s.logMsgQueue.point w).stage
  asleep : s.logMsgQueue.point .worker = .asleep ↔ t.phase = .asleep
  consistent : Consistent t

/-- The steps that do not touch the queue, and those that are left to its members. -/
def onQueue : Label ι → Bool
  | .push _ _ => true
  | .queueEmpty _ _ => true
  | .pop _ => true
  | .poll => true
  | .pushExit _ => true
  | _ => false

/-- What is done outside the queue. -/
def outside (xs : List (Step ι)) : List (Label ι) :=
  xs.flatMap fun
    | .act a => [a]
    | .queue _ => []

/-- A run of `Waiting` without the falling asleep and the waking up. -/
def acts (ws : List (WaitLabel ι)) : List (Label ι) :=
  ws.flatMap fun
    | .act a => [a]
    | _ => []

/-- The run is one in which each member of the queue takes effect at once. -/
structure Matched (env : Env) (L : Logger) (xs : List (Step ι)) (s : State ι) : Prop where
  legal : (Waiting.lts env).Legal (Waiting.start L) (xs.flatMap atomic)
  rest : s.rest = { ((Waiting.lts env).run (Waiting.start L) (xs.flatMap atomic)).async with
    queue := [] }
  queue : s.logMsgQueue.mtx = none → s.logMsgQueue.msgQueue =
    ((Waiting.lts env).run (Waiting.start L) (xs.flatMap atomic)).async.queue.map some
  /-- Nothing else is changed or put into another order. -/
  kept : outside xs = (acts (xs.flatMap atomic)).filter fun a => !onQueue a

/-! ### Steps outside the queue -/

variable {s : State ι} {t : Waiting ι}

omit [DecidableEq ι] in
/-- A thread stays inside while the others do not touch where it is. -/
lemma Inside.congr {r r' : Async ι} {w : Who ι} {st : Stage} (h : Inside r w st)
    (hclient : ∀ i, w = .client i →
      r'.pending i = r.pending i ∧ (r.dtor = .running → r'.dtor = .running))
    (hworker : w = .worker → r'.worker = r.worker) (hdtor : w = .dtor → r'.dtor = r.dtor) :
    Inside r' w st := by
  cases st with
  | before c =>
    cases w with
    | client i =>
      obtain ⟨hpending, hrunning⟩ := hclient i rfl
      cases c with
      | push p => simpa [Inside, May, hpending] using h
      | empty => exact ⟨hpending.trans h.1, hrunning h.2⟩
      | pop => exact h
    | worker =>
      cases c with
      | pop => exact (hworker rfl).trans h
      | _ => exact h
    | dtor =>
      cases c with
      | push p => exact ⟨hdtor rfl ▸ h.1, h.2⟩
      | empty =>
        obtain ⟨i, hi⟩ := h
        exact ⟨i, (hdtor rfl).trans hi⟩
      | pop => exact h
  | _ => trivial

lemma inside_act (env : Env) {a : Label ι} {q : QueueLock.State (Who ι)} {r : Async ι}
    (hfree : Free a q) (ha : Async.enabled a r) {w : Who ι} (h : Inside r w (q.point w).stage) :
    Inside (Async.next env a r) w (q.point w).stage := by
  by_cases hout : q.point w = .outside
  · rw [hout]
    trivial
  -- then it is not the thread that makes the step
  have hworker : q.point .worker = .outside → w ≠ .worker := by
    rintro hfree rfl
    exact hout hfree
  have hdtor : q.point .dtor = .outside → w ≠ .dtor := by
    rintro hfree rfl
    exact hout hfree
  cases a with
  | call i c =>
    refine h.congr (fun j hj => ⟨?_, id⟩) (fun _ => rfl) fun _ => rfl
    have hji : j ≠ i := by
      rintro rfl
      exact hout (hj ▸ hfree)
    exact Function.update_of_ne hji _ _
  | sinkCall i o dev => exact h.congr (fun _ _ => ⟨rfl, id⟩) (fun _ => rfl) fun _ => rfl
  | test => exact h.congr (fun _ _ => ⟨rfl, id⟩) (absurd · (hworker hfree)) fun _ => rfl
  | hand k m dev => exact h.congr (fun _ _ => ⟨rfl, id⟩) (absurd · (hworker hfree)) fun _ => rfl
  | skip k => exact h.congr (fun _ _ => ⟨rfl, id⟩) (absurd · (hworker hfree)) fun _ => rfl
  | finish m => exact h.congr (fun _ _ => ⟨rfl, id⟩) (absurd · (hworker hfree)) fun _ => rfl
  | destroy =>
    refine h.congr (fun i hi => ?_) (fun _ => rfl) (absurd · (hdtor hfree.1))
    exact absurd (hi ▸ hfree.2 i) hout
  | setStop =>
    obtain ⟨b, hb⟩ := ha
    exact h.congr (fun _ _ => ⟨rfl, fun hr => by simp [hb] at hr⟩) (fun _ => rfl)
      (absurd · (hdtor hfree))
  | join =>
    obtain ⟨⟨b, hb⟩, -⟩ := ha
    exact h.congr (fun _ _ => ⟨rfl, fun hr => by simp [hb] at hr⟩) (fun _ => rfl)
      (absurd · (hdtor hfree))
  | _ => exact absurd hfree id

/-- Such a step is the same there. -/
lemma explains_act (env : Env) {a : Label ι} (h : Explains s t) (hfree : Free a s.logMsgQueue)
    (ha : Async.enabled a s.rest) :
    Waiting.enabled (.act a) t ∧ Explains (next env (.act a) s) (Waiting.next env (.act a) t) := by
  have hinside := fun w => inside_act env hfree ha (h.inside w)
  have hsame : Waiting.enabled (.act a) t ∧
      Async.next env a s.rest = { Async.next env a t.async with queue := [] } ∧
      (Async.next env a t.async).queue = t.async.queue ∧
      (s.logMsgQueue.point .worker = .asleep ↔ Waiting.phaseAfter a t = .asleep) := by
    have hasleep := h.asleep
    rw [h.rest] at ha ⊢
    cases a with
    | push i m => exact absurd hfree id
    | queueEmpty i b => exact absurd hfree id
    | pop m => exact absurd hfree id
    | poll => exact absurd hfree id
    | pushExit m => exact absurd hfree id
    | destroy =>
      have hrun : t.async.dtor = .running := ha.1
      exact ⟨ha, by simp [Async.next, Dtor.advance, hrun], rfl, hasleep⟩
    | setStop =>
      obtain ⟨b, hb⟩ := ha
      have hb : t.async.dtor = .polled b := hb
      exact ⟨⟨b, hb⟩, by simp [Async.next, Dtor.advance, hb], rfl, hasleep⟩
    | join =>
      obtain ⟨⟨b, hb⟩, hexit⟩ := ha
      have hb : t.async.dtor = .joining b := hb
      exact ⟨⟨⟨b, hb⟩, hexit⟩, by simp [Async.next, Dtor.advance, hb], rfl, hasleep⟩
    | test =>
      have hout : s.logMsgQueue.point .worker = .outside := hfree
      refine ⟨ha, rfl, rfl, ?_⟩
      simp only [hout, Waiting.phaseAfter]
      split <;> simp
    | _ => exact ⟨ha, rfl, rfl, hasleep⟩
  obtain ⟨henabled, hrest, hqueue, hasleep⟩ := hsame
  obtain ⟨q, hrefines, hq⟩ := h.queue
  exact ⟨henabled, hrest, ⟨q, hrefines, hqueue ▸ hq⟩, hinside, hasleep,
    Wakeup.consistent_step h.consistent henabled⟩

/-! ### Statements of the queue -/

omit [DecidableEq ι] in
/-- The call that a thread is in is one that it makes where it is. -/
lemma Explains.may (h : Explains s t) {w : Who ι} {p : QueueLock.Point} {c : QueueLock.Call}
    (hw : s.logMsgQueue.point w = p) (hp : p.stage = .before c) : May s.rest w c := by
  have hin := h.inside w
  rw [hw, hp] at hin
  exact hin

omit [DecidableEq ι] in
lemma notifyOne_point {q : QueueLock.State (Who ι)} {w : Who ι} {p : Ptr} {woken : Option (Who ι)}
    (hl : QueueLock.enabled (.notifyOne w p woken) q) : q.point w = .pushNotify p := by
  cases woken <;> exact hl.1

/-- The other threads stay inside. -/
lemma inside_settle (h : Explains s t) {l : QueueLock.Label (Who ι)}
    (hl : QueueLock.enabled l s.logMsgQueue) {w : Who ι} (hw : w ≠ l.thread) {st : Stage}
    (hin : Inside s.rest w st) : Inside (settle l s.rest) w st := by
  cases l with
  | notifyOne w' p woken =>
    cases w' with
    | client i =>
      refine hin.congr (fun j hj => ⟨?_, id⟩) (fun _ => rfl) fun _ => rfl
      have hji : j ≠ i := by
        rintro rfl
        exact hw hj
      exact Function.update_of_ne hji _ _
    | worker => exact hin
    | dtor =>
      obtain ⟨⟨b, hb⟩, -⟩ := h.may (notifyOne_point hl) rfl
      exact hin.congr (fun _ _ => ⟨rfl, fun hr => by simp [hb] at hr⟩) (fun _ => rfl) (absurd · hw)
  | front w' p =>
    cases w' with
    | worker =>
      cases p with
      | none => exact hin
      | some m => exact hin.congr (fun _ _ => ⟨rfl, id⟩) (absurd · hw) fun _ => rfl
    | _ => exact hin
  | isEmpty w' b =>
    cases w' with
    | dtor =>
      obtain ⟨i, hi⟩ := h.may hl.1 rfl
      exact hin.congr (fun _ _ => ⟨rfl, fun hr => by simp [hi] at hr⟩) (fun _ => rfl) (absurd · hw)
    | _ => exact hin
  | _ => exact hin

/-- The thread itself goes through its call. -/
lemma inside_own (h : Explains s t) {l : QueueLock.Label (Who ι)}
    (hl : QueueLock.enabled l s.logMsgQueue) (hcall : ∀ w c, l = .call w c → May s.rest w c) :
    Inside (settle l s.rest) l.thread
      ((QueueLock.next l s.logMsgQueue).point l.thread).stage := by
  have hgoes := QueueLock.goes_of_enabled hl
  have hown := h.inside l.thread
  generalize s.logMsgQueue.point l.thread = p at hgoes hown
  generalize (QueueLock.next l s.logMsgQueue).point l.thread = p' at hgoes
  cases hgoes with
  | call w c =>
    have hmay := hcall w c rfl
    cases c <;> exact hmay
  | lock w hlocked =>
    rw [QueueLock.stage_locked hlocked]
    exact hown
  | append w m => exact hown
  | test w b => cases b <;> exact hown
  | wait w => exact hown
  | spurious w => exact hown
  | _ => trivial

omit [DecidableEq ι] in
/-- A background thread that is inside `pop` and does not sleep is on its way. -/
lemma Explains.active (h : Explains s t) (hpop : t.async.worker = .popping)
    (hne : s.logMsgQueue.point .worker ≠ .asleep) : t.phase.Active := by
  have hin := h.consistent.inside.mpr hpop
  have hno := mt h.asleep.mpr hne
  cases hp : t.phase <;> simp_all [CondQueue.Phase.Active]

/-- What a statement is there, and what it does to the messages. -/
lemma matched (env : Env) {l : QueueLock.Label (Who ι)} (h : Explains s t)
    (hl : QueueLock.enabled l s.logMsgQueue) {a : CondQueue.State (Who ι) Ptr}
    (hrefines : QueueLock.Refines s.logMsgQueue a) (hq : a.queue = t.async.queue.map some)
    (hfifo : (QueueLock.fifo (Who ι)).Legal a.queue (QueueLock.effects l)) :
    (Waiting.lts env).Legal t (atomic (.queue l)) ∧
      settle l s.rest =
        { ((Waiting.lts env).run t (atomic (.queue l))).async with queue := [] } ∧
      (QueueLock.fifo (Who ι)).run a.queue (QueueLock.effects l) =
        ((Waiting.lts env).run t (atomic (.queue l))).async.queue.map some := by
  rw [hq] at hfifo ⊢
  cases l with
  | notifyOne w p woken =>
    have hmay := h.may (notifyOne_point hl) rfl
    rw [h.rest] at hmay ⊢
    cases w with
    | client i =>
      obtain ⟨m, rfl, hm⟩ := hmay
      have happend : t.async.queue.map some ++ [some m] = (t.async.queue ++ [m]).map some := by
        simp
      exact ⟨⟨hm, trivial⟩, rfl, happend⟩
    | worker => exact absurd hmay id
    | dtor =>
      obtain ⟨⟨b, hb⟩, now, rfl⟩ := hmay
      have hb : t.async.dtor = .stopped b := hb
      have happend : t.async.queue.map some ++ [some (exitCall now).message] =
          (t.async.queue ++ [(exitCall now).message]).map some := by
        simp
      refine ⟨⟨⟨⟨b, hb⟩, now, rfl⟩, trivial⟩, ?_, happend⟩
      simp [settle, atomic, Waiting.lts, Waiting.next, Async.next, Dtor.advance, hb]
  | front w p =>
    have hmay := h.may hl.1 rfl
    rw [h.rest] at hmay ⊢
    cases w with
    | worker =>
      -- a message is at the front, and not a null pointer
      have hhead : (t.async.queue.map some).head? = some p := hfifo.1
      rw [List.head?_map, Option.map_eq_some_iff] at hhead
      obtain ⟨m, hm, rfl⟩ := hhead
      have hactive := h.active hmay (by simp [hl.1])
      exact ⟨⟨⟨⟨hmay, hm⟩, hactive⟩, trivial⟩, rfl, List.map_tail.symm⟩
    | _ => exact absurd hmay id
  | isEmpty w b =>
    have hmay := h.may hl.1 rfl
    have hb : b = t.async.queue.isEmpty := by
      simpa [QueueLock.fifo, QueueLock.effects] using hfifo.1
    rw [h.rest] at hmay ⊢
    cases w with
    | client i => exact ⟨⟨⟨hmay.1, hmay.2, hb⟩, trivial⟩, rfl, rfl⟩
    | worker => exact absurd hmay id
    | dtor =>
      subst hb
      exact ⟨⟨hmay, trivial⟩, rfl, rfl⟩
  | wait w =>
    have hw : s.logMsgQueue.point w = .popWait := hl
    have hmay := h.may hw rfl
    rw [h.rest] at hmay ⊢
    cases w with
    | worker =>
      obtain ⟨-, hnil⟩ : s.logMsgQueue.msgQueue = a.queue ∧ a.queue = [] := by
        simpa [hw, QueueLock.Shows] using hrefines.held .worker (hw ▸ trivial)
      have hempty : t.async.queue = [] := by simpa [hnil] using hq.symm
      have hactive := h.active hmay (by simp [hw])
      exact ⟨⟨⟨hmay, hactive, hempty⟩, trivial⟩, rfl, rfl⟩
    | _ => exact absurd hmay id
  | spurious w =>
    have hw : s.logMsgQueue.point w = .asleep := hl
    have hmay := h.may hw rfl
    rw [h.rest] at hmay ⊢
    cases w with
    | worker => exact ⟨⟨h.asleep.mp hw, trivial⟩, rfl, rfl⟩
    | _ => exact absurd hmay id
  | _ => exact ⟨trivial, h.rest, rfl⟩

lemma notifyOne_ne_asleep (p : CondQueue.Phase) : Waiting.notifyOne p ≠ .asleep := by
  cases p <;> simp [Waiting.notifyOne]

/-- The background thread falls asleep and wakes up there as it does here. -/
lemma asleep_step (env : Env) {l : QueueLock.Label (Who ι)} (h : Explains s t)
    (hl : QueueLock.enabled l s.logMsgQueue) :
    (QueueLock.next l s.logMsgQueue).point .worker = .asleep ↔
      ((Waiting.lts env).run t (atomic (.queue l))).phase = .asleep := by
  cases l with
  | notifyOne w p woken =>
    have hmay := h.may (notifyOne_point hl) rfl
    have hw : w ≠ .worker := by
      rintro rfl
      exact hmay
    have hphase : ((Waiting.lts env).run t (atomic (.queue (.notifyOne w p woken)))).phase =
        Waiting.notifyOne t.phase := by
      cases w with
      | client i =>
        obtain ⟨m, rfl, -⟩ := hmay
        rfl
      | worker => exact absurd rfl hw
      | dtor =>
        obtain ⟨-, now, rfl⟩ := hmay
        rfl
    rw [hphase]
    refine iff_of_false (fun hasleep => ?_) (notifyOne_ne_asleep t.phase)
    -- nobody else can be asleep
    cases woken with
    | none =>
      have hbefore := (QueueLock.asleep_iff (t := .worker) hl nofun nofun nofun).mp hasleep
      exact hl.2 .worker hbefore
    | some c =>
      have hc : May s.rest c .pop := h.may hl.2 rfl
      cases c with
      | worker =>
        have hnext : (QueueLock.next (.notifyOne w p (some .worker)) s.logMsgQueue).point .worker =
            .notified :=
          (QueueLock.setPoint_ne _ hw.symm _).trans (QueueLock.setPoint_self ..)
        simp [hnext] at hasleep
      | client i => exact hc
      | dtor => exact hc
  | wait w =>
    have hmay := h.may (p := .popWait) hl rfl
    cases w with
    | worker => exact iff_of_true (QueueLock.setPoint_self ..) rfl
    | _ => exact absurd hmay id
  | spurious w =>
    have hmay := h.may (p := .asleep) hl rfl
    cases w with
    | worker =>
      have hnext : (QueueLock.next (.spurious .worker) s.logMsgQueue).point .worker = .notified :=
        QueueLock.setPoint_self ..
      exact iff_of_false (by simp [hnext]) nofun
    | _ => exact absurd hmay id
  | front w p =>
    have hmay := h.may hl.1 rfl
    cases w with
    | worker =>
      have hnext : (QueueLock.next (.front .worker p) s.logMsgQueue).point .worker =
          .popRemove p := QueueLock.setPoint_self ..
      have hawake : t.phase ≠ .asleep := mt h.asleep.mpr (by rw [hl.1]; nofun)
      rw [hnext]
      cases p with
      | none => exact iff_of_false nofun hawake
      | some m => exact iff_of_false nofun nofun
    | _ => exact absurd hmay id
  | isEmpty w b =>
    rw [QueueLock.asleep_iff hl nofun nofun nofun, h.asleep]
    cases w <;> rfl
  | _ => exact (QueueLock.asleep_iff hl nofun nofun nofun).trans h.asleep

/-- A statement is matched by what it is there. -/
lemma explains_queue (env : Env) {l : QueueLock.Label (Who ι)} (h : Explains s t)
    (hl : QueueLock.enabled l s.logMsgQueue) (hcall : ∀ w c, l = .call w c → May s.rest w c) :
    (Waiting.lts env).Legal t (atomic (.queue l)) ∧
      Explains (next env (.queue l) s) ((Waiting.lts env).run t (atomic (.queue l))) := by
  obtain ⟨a, hrefines, hq⟩ := h.queue
  obtain ⟨hfifo, hrun⟩ := QueueLock.effects_step hrefines hl
  have hrefines' := (QueueLock.refines_step hrefines hl).2
  obtain ⟨hlegal, hrest, hqueue⟩ := matched env h hl hrefines hq hfifo
  have hconsistent := hlegal.invariant h.consistent fun _ _ hc ha => Wakeup.consistent_step hc ha
  refine ⟨hlegal, hrest, ⟨_, hrefines', hrun.symm.trans hqueue⟩, fun w => ?_,
    asleep_step env h hl, hconsistent⟩
  by_cases hw : w = l.thread
  · subst hw
    exact inside_own h hl hcall
  · change Inside _ w ((QueueLock.next l s.logMsgQueue).point w).stage
    rw [QueueLock.stage_of_ne hl hw]
    exact inside_settle h hl hw (h.inside w)

lemma explains_step (env : Env) {x : Step ι} (h : Explains s t) (hx : enabled x s) :
    (Waiting.lts env).Legal t (atomic x) ∧
      Explains (next env x s) ((Waiting.lts env).run t (atomic x)) := by
  cases x with
  | act a =>
    obtain ⟨ha, hnext⟩ := explains_act env h hx.1 hx.2
    exact ⟨⟨ha, trivial⟩, hnext⟩
  | queue l =>
    cases l with
    | call w c =>
      refine explains_queue env h hx.1 fun w' c' heq => ?_
      cases heq
      exact hx.2
    | _ => exact explains_queue env h hx nofun

omit [DecidableEq ι] in
lemma explains_start (L : Logger) : Explains (start L : State ι) (Waiting.start L) where
  rest := rfl
  queue := ⟨_, QueueLock.refines_start, rfl⟩
  inside _ := trivial
  asleep := ⟨nofun, nofun⟩
  consistent := Wakeup.start_consistent L

lemma explained_of_legal {env : Env} {L : Logger} {xs : List (Step ι)}
    (h : (lts env).Legal (start L) xs) :
    (Waiting.lts env).Legal (Waiting.start L) (xs.flatMap atomic) ∧
      Explains ((lts env).run (start L) xs)
        ((Waiting.lts env).run (Waiting.start L) (xs.flatMap atomic)) :=
  h.simulation (r := Explains) (f := atomic) (fun _ _ _ hr hx => explains_step env hr hx)
    (explains_start L)

/-! ### Runs -/

omit [DecidableEq ι] in
lemma acts_queue (l : QueueLock.Label (Who ι)) :
    (acts (atomic (.queue l))).filter (fun a => !onQueue a) = [] := by
  unfold atomic
  split
  · next heq => cases heq
  all_goals rfl

lemma kept_of_legal {env : Env} {xs : List (Step ι)} (h : (lts env).Legal s xs) :
    outside xs = (acts (xs.flatMap atomic)).filter fun a => !onQueue a := by
  induction xs generalizing s with
  | nil => rfl
  | cons x xs ih =>
    have hrest := ih h.2
    have happend : acts ((x :: xs).flatMap atomic) =
        acts (atomic x) ++ acts (xs.flatMap atomic) := by
      simp [acts]
    rw [happend, List.filter_append, ← hrest]
    cases x with
    | queue l =>
      rw [acts_queue]
      rfl
    | act a =>
      have hfree : Free a s.logMsgQueue := h.1.1
      have hnot : onQueue a = false := by
        cases a with
        | push i m => exact absurd hfree id
        | queueEmpty i b => exact absurd hfree id
        | pop m => exact absurd hfree id
        | poll => exact absurd hfree id
        | pushExit m => exact absurd hfree id
        | _ => rfl
      simp [outside, acts, atomic, hnot]

/-- **Statement by statement or at once.** -/
theorem matched_of_legal (env : Env) (L : Logger) (xs : List (Step ι))
    (h : (lts env).Legal (start L) xs) : Matched env L xs ((lts env).run (start L) xs) := by
  obtain ⟨hlegal, hexplains⟩ := explained_of_legal h
  obtain ⟨a, hrefines, hq⟩ := hexplains.queue
  exact ⟨hlegal, hexplains.rest, fun hfree => (hrefines.free hfree).trans hq, kept_of_legal h⟩

/-- A message is logged while the background thread sleeps, and goes past a map without sinks. -/
def logged : List (Step (Fin 1)) :=
  let c : LogCall := .plain 0 [] "a".toList .ealInfo
  let m : Ptr := some c.message
  [.act .test, .queue (.call .worker .pop), .queue (.lock .worker), .queue (.test .worker),
    .queue (.wait .worker), .act (.call 0 c), .queue (.call (.client 0) (.push m)),
    .queue (.lock (.client 0)), .queue (.append (.client 0)),
    .queue (.notifyOne (.client 0) m (some .worker)), .queue (.ret (.client 0) (.pushed m)),
    .queue (.lock .worker), .queue (.test .worker), .queue (.front .worker m),
    .queue (.remove .worker), .queue (.ret .worker (.popped m)), .act (.skip .ealConsole),
    .act (.skip .ealSyslog), .act (.skip .ealFileSimple), .act (.finish c.message), .act .test,
    .queue (.call .worker .pop), .queue (.lock .worker), .queue (.test .worker),
    .queue (.wait .worker)]

lemma legal_logged : (lts Env.bare).Legal (start (Logger.new Disk.empty)) logged := by
  simp [logged, lts, start, enabled, next, settle, Free, May, QueueLock.enabled, QueueLock.next,
    QueueLock.start, QueueLock.State.setPoint, QueueLock.Point.enter, QueueLock.Point.locked,
    Async.enabled, Async.next, Async.start, sinkKeys, Worker.advance, Logger.new]

theorem matched_of_legal_logged :
    Matched Env.bare (Logger.new Disk.empty) logged
      ((lts Env.bare).run (start (Logger.new Disk.empty)) logged) :=
  matched_of_legal Env.bare (Logger.new Disk.empty) logged legal_logged

lemma async_of_waiting {env : Env} {L : Logger} {ws : List (WaitLabel ι)}
    (h : (Waiting.lts env).Legal (Waiting.start L) ws) :
    (Async.lts env).Legal (Async.start L) (acts ws) ∧
      ((Waiting.lts env).run (Waiting.start L) ws).async =
        (Async.lts env).run (Async.start L) (acts ws) := by
  refine h.simulation (r := fun t s => t.async = s) (fun w t s hs hw => ?_) rfl
  subst hs
  cases w with
  | act a =>
    refine ⟨⟨?_, trivial⟩, rfl⟩
    cases a with
    | pop m => exact hw.1
    | _ => exact hw
  | _ => exact ⟨trivial, rfl⟩

/-! ### At rest -/

/-- What happens only when a client calls, or for no reason. -/
def External : Step ι → Prop
  | .act (.call _ _) => True
  | .act (.sinkCall _ _ _) => True
  | .act .destroy => True
  | .queue (.call (.client _) .empty) => True
  | .queue (.spurious _) => True
  | _ => False

def Still (s : State ι) : Prop := ∀ x, enabled x s → External x

/-- No client is inside a call, and either the messages of all calls have been through the sinks,
in the order in which they were pushed, and the background thread sleeps; or the destructor has
returned, and the background thread has come to its end. -/
structure AtRest (as : List (Label ι)) (s : State ι) : Prop where
  clients : ∀ i, s.rest.pending i = none ∧ s.logMsgQueue.point (.client i) = .outside
  mutex : s.logMsgQueue.mtx = none
  threads :
    s.rest.dtor = .running ∧ s.logMsgQueue.point .worker = .asleep ∧
        s.logMsgQueue.msgQueue = [] ∧ completed as = (pushed as).map Prod.snd ∧
        (∀ i, sentBy i (pushed as) = called as i) ∨
      ∃ b, s.rest.dtor = .joined b ∧ s.rest.worker = .exited

/-- The flag is set by the destructor only, and the background thread ends only then. -/
def Flagged (s : Async ι) : Prop :=
  (s.stop = true → Wakeup.flagSet s.dtor = true) ∧ (s.worker = .exited → s.stop = true)

lemma flagged_step {env : Env} {a : Label ι} {r : Async ι} (h : Flagged r)
    (ha : Async.enabled a r) : Flagged (Async.next env a r) := by
  obtain ⟨hstop, hexited⟩ := h
  cases a with
  | test => exact ⟨hstop, fun hw => by simpa [Async.next] using hw⟩
  | pop m => exact ⟨hstop, by simp [Async.next]⟩
  | hand k m dev =>
    obtain ⟨⟨rest, hw⟩, -⟩ := ha
    exact ⟨hstop, by simp [Async.next, hw, Worker.advance]⟩
  | skip k =>
    obtain ⟨⟨m, rest, hw⟩, -⟩ := ha
    exact ⟨hstop, by simp [Async.next, hw, Worker.advance]⟩
  | finish m => exact ⟨hstop, by simp [Async.next]⟩
  | destroy =>
    have hrun : r.dtor = .running := ha.1
    exact ⟨fun hs => by simpa [hrun, Wakeup.flagSet] using hstop hs, hexited⟩
  | poll =>
    obtain ⟨i, hi⟩ := ha
    exact ⟨fun hs => by simpa [hi, Wakeup.flagSet] using hstop hs, hexited⟩
  | setStop =>
    obtain ⟨b, hb⟩ := ha
    exact ⟨fun _ => by simp [Async.next, hb, Dtor.advance, Wakeup.flagSet], fun _ => rfl⟩
  | pushExit m =>
    obtain ⟨⟨b, hb⟩, -⟩ := ha
    exact ⟨fun _ => by simp [Async.next, hb, Dtor.advance, Wakeup.flagSet], hexited⟩
  | join =>
    obtain ⟨⟨b, hb⟩, -⟩ := ha
    exact ⟨fun _ => by simp [Async.next, hb, Dtor.advance, Wakeup.flagSet], hexited⟩
  | _ => exact ⟨hstop, hexited⟩

/-- What is done to the queue. -/
def statements (xs : List (Step ι)) : List (QueueLock.Label (Who ι)) :=
  xs.flatMap fun
    | .act _ => []
    | .queue l => [l]

omit [DecidableEq ι] in
lemma enabled_queue {l : QueueLock.Label (Who ι)} (h : enabled (.queue l) s) :
    QueueLock.enabled l s.logMsgQueue := by
  cases l with
  | call w c => exact h.1
  | _ => exact h

/-- The statements are a run of the queue. -/
lemma queue_of_legal {env : Env} {L : Logger} {xs : List (Step ι)}
    (h : (lts env).Legal (start L) xs) :
    QueueLock.lts.Legal QueueLock.start (statements xs) ∧
      ((lts env).run (start L) xs).logMsgQueue =
        QueueLock.lts.run QueueLock.start (statements xs) := by
  refine h.simulation (r := fun s q => s.logMsgQueue = q) (fun x s q hq hx => ?_) rfl
  subst hq
  cases x with
  | act a => exact ⟨trivial, rfl⟩
  | queue l => exact ⟨⟨enabled_queue hx, trivial⟩, rfl⟩

omit [DecidableEq ι] in
lemma still_queue (hstill : Still s) : QueueLock.Still s.logMsgQueue := by
  intro l hl
  cases l with
  | call w c => exact .inl ⟨w, c, rfl⟩
  | spurious w => exact .inr ⟨w, rfl⟩
  | notifyOne w p woken => exact absurd (hstill (.queue (.notifyOne w p woken)) hl) id
  | lock w => exact absurd (hstill (.queue (.lock w)) hl) id
  | append w => exact absurd (hstill (.queue (.append w)) hl) id
  | test w => exact absurd (hstill (.queue (.test w)) hl) id
  | wait w => exact absurd (hstill (.queue (.wait w)) hl) id
  | front w p => exact absurd (hstill (.queue (.front w p)) hl) id
  | remove w => exact absurd (hstill (.queue (.remove w)) hl) id
  | isEmpty w b => exact absurd (hstill (.queue (.isEmpty w b)) hl) id
  | ret w r => exact absurd (hstill (.queue (.ret w r)) hl) id

omit [DecidableEq ι] in
/-- A background thread that is outside the queue has come to its end. -/
lemma exited_of_still (hstill : Still s) (hout : s.logMsgQueue.point .worker = .outside) :
    s.rest.worker = .exited := by
  have hact : ∀ a, Free a s.logMsgQueue → Async.enabled a s.rest → External (.act a) :=
    fun a hfree ha => hstill (.act a) ⟨hfree, ha⟩
  cases hw : s.rest.worker with
  | exited => rfl
  | testing => exact absurd (hact .test hout hw) id
  | popping => exact absurd (hstill (.queue (.call .worker .pop)) ⟨hout, hw⟩) id
  | dispatching m rest =>
    cases rest with
    | nil => exact absurd (hact (.finish m) hout hw) id
    | cons k rest =>
      cases hk : s.rest.logger.loggerSinkMap k with
      | none => exact absurd (hact (.skip k) hout ⟨⟨m, rest, hw⟩, hk⟩) id
      | some g =>
        exact absurd (hact (.hand k m Device.willing) hout ⟨⟨rest, hw⟩, by simp [hk]⟩) id

omit [DecidableEq ι] in
/-- A destructor that has been called is about to join, or has returned. -/
lemma dtor_of_still (hstill : Still s) (hout : s.logMsgQueue.point .dtor = .outside) :
    s.rest.dtor = .running ∨ ∃ b, s.rest.dtor = .joining b ∨ s.rest.dtor = .joined b := by
  cases hd : s.rest.dtor with
  | running => exact .inl rfl
  | polling i => exact absurd (hstill (.queue (.call .dtor .empty)) ⟨hout, i, hd⟩) id
  | polled b => exact absurd (hstill (.act .setStop) ⟨hout, b, hd⟩) id
  | stopped b =>
    exact absurd (hstill (.queue (.call .dtor (.push (some (exitCall 0).message))))
      ⟨hout, ⟨b, hd⟩, 0, rfl⟩) id
  | joining b => exact .inr ⟨b, .inl rfl⟩
  | joined b => exact .inr ⟨b, .inr rfl⟩

omit [DecidableEq ι] in
/-- The background thread sleeps in `pop`, with nothing left to pop, or it has ended. -/
lemma worker_of_still (h : Explains s t) (hstill : Still s)
    (hpoint : ∀ w, s.logMsgQueue.point w = .outside ∨
      s.logMsgQueue.point w = .asleep ∧ s.logMsgQueue.msgQueue = []) :
    s.logMsgQueue.point .worker = .asleep ∧ s.logMsgQueue.msgQueue = [] ∧
        s.rest.worker = .popping ∨ s.rest.worker = .exited := by
  rcases hpoint .worker with hout | ⟨hasleep, hnil⟩
  · exact .inr (exited_of_still hstill hout)
  · exact .inl ⟨hasleep, hnil, h.may hasleep rfl⟩

/-- Nothing is in the queue or in the hands of a thread. -/
lemma delivered_of_popping {as : List (Label ι)} {r : Async ι} (h : Delivery.Accounted as r)
    (hpop : r.worker = .popping) (hempty : r.queue = []) (hpending : ∀ i, r.pending i = none) :
    completed as = (pushed as).map Prod.snd ∧ ∀ i, sentBy i (pushed as) = called as i := by
  have htaken : taken as = completed as := by simpa [hpop, Worker.inHand] using h.inHand
  refine ⟨?_, fun i => ?_⟩
  · rw [← h.fifo, hempty, List.append_nil, htaken]
  · rw [← h.sent i, hpending i, Option.toList_none, List.append_nil]

lemma quiescent_of_still {env : Env} {L : Logger} {xs : List (Step ι)}
    (h : (lts env).Legal (start L) xs) (hstill : Still ((lts env).run (start L) xs)) :
    AtRest (acts (xs.flatMap atomic)) ((lts env).run (start L) xs) := by
  obtain ⟨hlegal, hexplains⟩ := explained_of_legal h
  obtain ⟨hasync, hsame⟩ := async_of_waiting hlegal
  have hacc := Delivery.accounted_of_legal hasync
  have hflag := hasync.invariant (p := Flagged) ⟨nofun, nofun⟩ fun _ _ hf ha => flagged_step hf ha
  obtain ⟨hconsistent, rs, hrs, hview⟩ := Wakeup.consistent_of_legal hlegal
  have hwakes := Wakeup.wakesUp_of_consistent hconsistent
    (hview ▸ CondQueue.noLostWakeup_of_legal hrs)
  obtain ⟨hstatements, hqueue⟩ := queue_of_legal h
  obtain ⟨hatomic, hrefines⟩ := QueueLock.refines_of_legal hstatements
  rw [← hqueue] at hrefines
  rw [← hsame] at hacc hflag
  obtain ⟨hmutex, hpoint⟩ := hrefines.quiet (CondQueue.noLostWakeup_of_legal hatomic)
    (still_queue hstill)
  generalize (lts env).run (start L) xs = s at hexplains hstill hmutex hpoint ⊢
  generalize (Waiting.lts env).run (Waiting.start L) (xs.flatMap atomic) = t
    at hexplains hacc hflag hwakes
  -- only the background thread can be asleep in the queue
  have hout : ∀ w, w ≠ .worker → s.logMsgQueue.point w = .outside := by
    intro w hw
    rcases hpoint w with hout | ⟨hasleep, -⟩
    · exact hout
    · have hmay : May s.rest w .pop := hexplains.may hasleep rfl
      cases w with
      | worker => exact absurd rfl hw
      | _ => exact absurd hmay id
  have hpending : ∀ i, s.rest.pending i = none := by
    intro i
    by_contra hne
    obtain ⟨m, hm⟩ := Option.ne_none_iff_exists'.mp hne
    exact hstill (.queue (.call (.client i) (.push (some m)))) ⟨hout (.client i) nofun, m, rfl, hm⟩
  refine ⟨fun i => ⟨hpending i, hout (.client i) nofun⟩, hmutex, ?_⟩
  have hworker := worker_of_still hexplains hstill hpoint
  have hdtor : t.async.dtor = s.rest.dtor := by rw [hexplains.rest]
  -- once the destructor has pushed its message the background thread is kept awake
  have hawake : Shutdown.sentExit s.rest.dtor = true → s.rest.worker = .exited := by
    intro hsent
    rcases hworker with ⟨hasleep, -⟩ | hexited
    · exact absurd (hexplains.asleep.mp hasleep) (hwakes.awake (hdtor ▸ hsent))
    · exact hexited
  rcases dtor_of_still hstill (hout .dtor nofun) with hrun | ⟨b, hjoining | hjoined⟩
  · have hexited : s.rest.worker ≠ .exited := by
      intro hexited
      have hstop := hflag.2 (by rw [hexplains.rest] at hexited; exact hexited)
      simpa [hdtor, hrun, Wakeup.flagSet] using hflag.1 hstop
    obtain ⟨hasleep, hnil, hpop⟩ := hworker.resolve_right hexited
    obtain ⟨a, ha, hq⟩ := hexplains.queue
    have hempty : t.async.queue = [] := by
      rw [ha.free hmutex, hq] at hnil
      exact List.map_eq_nil_iff.mp hnil
    rw [hexplains.rest] at hpop hpending
    exact .inl ⟨hrun, hasleep, hnil, delivered_of_popping hacc hpop hempty hpending⟩
  · have hexited := hawake (by rw [hjoining]; rfl)
    exact absurd (hstill (.act .join) ⟨hout .dtor nofun, ⟨b, hjoining⟩, hexited⟩) id
  · exact .inr ⟨b, hjoined, hawake (by rw [hjoined]; rfl)⟩

/-- **Delivered.** When nothing more happens by itself, the messages of all calls have been
through the sinks, or the destructor has returned. -/
theorem atRest_of_still (env : Env) (L : Logger) (xs : List (Step ι))
    (h : (lts env).Legal (start L) xs) (hstill : Still ((lts env).run (start L) xs)) :
    AtRest (acts (xs.flatMap atomic)) ((lts env).run (start L) xs) :=
  quiescent_of_still h hstill

/-- Only a client or the destructor can go on. -/
lemma still_of_asleep (hdtor : s.rest.dtor = .running) (hpending : ∀ i, s.rest.pending i = none)
    (hworker : s.logMsgQueue.point .worker = .asleep)
    (hout : ∀ w, w ≠ .worker → s.logMsgQueue.point w = .outside) : Still s := by
  have hqueue : QueueLock.Still s.logMsgQueue := QueueLock.still_of_forall fun w => by
    by_cases hw : w = .worker
    · exact .inr (hw ▸ hworker)
    · exact .inl (hout w hw)
  have hinside : s.logMsgQueue.point .worker ≠ .outside := by simp [hworker]
  intro x hx
  cases x with
  | act a =>
    obtain ⟨hfree, ha⟩ := hx
    cases a with
    | call i c => trivial
    | sinkCall i o dev => trivial
    | destroy => trivial
    | setStop => simp [Async.enabled, hdtor] at ha
    | join => simp [Async.enabled, hdtor] at ha
    | _ => first | exact absurd hfree id | exact absurd hfree hinside
  | queue l =>
    rcases hqueue l (enabled_queue hx) with ⟨w, c, rfl⟩ | ⟨w, rfl⟩
    · obtain ⟨hout, hmay⟩ := hx
      cases w with
      | client i =>
        cases c with
        | push p => simp [May, hpending] at hmay
        | pop => exact absurd hmay id
        | empty => trivial
      | worker => exact absurd hout hinside
      | dtor => cases c <;> simp [May, hdtor] at hmay
    · trivial

theorem atRest_of_still_logged :
    AtRest (acts (logged.flatMap atomic))
      ((lts Env.bare).run (start (Logger.new Disk.empty)) logged) := by
  have hout : ∀ w, w ≠ .worker → ((lts Env.bare).run (start (Logger.new Disk.empty))
      logged).logMsgQueue.point w = .outside := by
    intro w hw
    cases w with
    | client i =>
      obtain rfl := Subsingleton.elim i 0
      decide
    | worker => exact absurd rfl hw
    | dtor => decide
  exact atRest_of_still Env.bare (Logger.new Disk.empty) logged legal_logged
    (still_of_asleep (by decide) (by decide) (by decide) hout)

end Ealogger.AsyncQueue
