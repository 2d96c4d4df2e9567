import Ealogger.Lib.CondQueue
import Ealogger.LogMessage

/-!
`LogQueue` statement by statement.

Elsewhere `push`, `pop` and `empty` take effect at once. Here any number of threads go through
them statement by statement, with the mutex and the condition variable in between: a thread that
has been woken up has to get the mutex again and may come too late, and between the move of the
first message and its removal the queue begins with a null pointer. Every run is one of the queue
whose operations take effect at once, and so is what the threads get out of it.
-/

namespace Ealogger.QueueLock

/-- A `std::shared_ptr<LogMessage>`. One that has been moved from is null. -/
abbrev Ptr := Option LogMessage

inductive Call
  | push (m : Ptr)
  | pop
  | empty
  deriving DecidableEq

inductive Return
  | pushed (m : Ptr)
  | popped (m : Ptr)
  | isEmpty (b : Bool)
  deriving DecidableEq

def Return.call : Return → Call
  | .pushed m => .push m
  | .popped _ => .pop
  | .isEmpty _ => .empty

/-- The statement that a thread will carry out next. -/
inductive Point
  | outside
  | pushLock (m : Ptr)
  | pushAppend (m : Ptr)
  | pushNotify (m : Ptr)
  | popLock
  /-- The test of the predicate in `cond_var_queue.wait`. -/
  | popTest
  /-- The predicate does not hold: the mutex is given up for the sleep. -/
  | popWait
  | asleep
  /-- Woken up, and in need of the mutex. -/
  | notified
  | popFront
  | popRemove (m : Ptr)
  | emptyLock
  | emptyTest
  /-- The end of the scope of the lock. -/
  | unlock (r : Return)
  deriving DecidableEq

structure State (T : Type*) where
  msgQueue : List Ptr
  mtx : Option T
  point : T → Point

inductive Label (T : Type*)
  | call (t : T) (c : Call)
  | lock (t : T)
  | append (t : T)
  /-- `notify_one`, which picks a sleeper if there is one. -/
  | notifyOne (t : T) (m : Ptr) (woken : Option T)
  | test (t : T)
  | wait (t : T)
  /-- A sleeper wakes up for no reason. -/
  | spurious (t : T)
  | front (t : T) (m : Ptr)
  | remove (t : T)
  | isEmpty (t : T) (b : Bool)
  /-- The mutex is released, and the call returns. -/
  | ret (t : T) (r : Return)

namespace Point

/-- Where a call begins. -/
def enter : Call → Point
  | .push m => .pushLock m
  | .pop => .popLock
  | .empty => .emptyLock

/-- Where a thread is that has got the mutex. -/
def locked : Point → Option Point
  | .pushLock m => some (.pushAppend m)
  | .popLock => some .popTest
  | .notified => some .popTest
  | .emptyLock => some .emptyTest
  | _ => none

/-- A thread holds the mutex. -/
def Holds : Point → Prop
  | .pushAppend _ => True
  | .pushNotify _ => True
  | .popTest => True
  | .popWait => True
  | .popFront => True
  | .popRemove _ => True
  | .emptyTest => True
  | .unlock _ => True
  | _ => False

end Point

variable {T : Type*} [DecidableEq T]

def State.setPoint (s : State T) (t : T) (p : Point) : State T :=
  { s with point := Function.update s.point t p }

def enabled (a : Label T) (s : State T) : Prop :=
  match a with
  | .call t _ => s.point t = .outside
  | .lock t => s.mtx = none ∧ (s.point t).locked ≠ none
  | .append t => ∃ m, s.point t = .pushAppend m
  | .notifyOne t m (some c) => s.point t = .pushNotify m ∧ s.point c = .asleep
  | .notifyOne t m none => s.point t = .pushNotify m ∧ ∀ c, s.point c ≠ .asleep
  | .test t => s.point t = .popTest
  | .wait t => s.point t = .popWait
  | .spurious t => s.point t = .asleep
  | .front t m => s.point t = .popFront ∧ s.msgQueue.head? = some m
  | .remove t => ∃ m, s.point t = .popRemove m
  | .isEmpty t b => s.point t = .emptyTest ∧ b = s.msgQueue.isEmpty
  | .ret t r => s.point t = .unlock r

def next (a : Label T) (s : State T) : State T :=
  match a with
  | .call t c => s.setPoint t (.enter c)
  | .lock t => match (s.point t).locked with
    | some p => State.setPoint { s with mtx := some t } t p
    | none => s
  | .append t => match s.point t with
    | .pushAppend m =>
      State.setPoint { s with msgQueue := s.msgQueue ++ [m] } t (.pushNotify m)
    | _ => s
  | .notifyOne t m (some c) => (s.setPoint c .notified).setPoint t (.unlock (.pushed m))
  | .notifyOne t m none => s.setPoint t (.unlock (.pushed m))
  | .test t => s.setPoint t (if s.msgQueue.isEmpty then .popWait else .popFront)
  | .wait t => State.setPoint { s with mtx := none } t .asleep
  | .spurious t => s.setPoint t .notified
  -- what has been moved from stays in the queue
  | .front t m => State.setPoint { s with msgQueue := none :: s.msgQueue.tail } t (.popRemove m)
  | .remove t => match s.point t with
    | .popRemove m =>
      State.setPoint { s with msgQueue := s.msgQueue.tail } t (.unlock (.popped m))
    | _ => s
  | .isEmpty t b => s.setPoint t (.unlock (.isEmpty b))
  | .ret t _ => State.setPoint { s with mtx := none } t .outside

def lts : Lts (State T) (Label T) := ⟨enabled, next⟩

/-- `LogQueue::LogQueue`. -/
def start : State T := ⟨[], none, fun _ => .outside⟩

/-! ### One call after the other -/

/-- The calls in the order in which they take effect, with what they return. -/
def fifo (T : Type*) : Lts (List Ptr) (T × Return) where
  enabled r q := match r.2 with
    | .pushed _ => True
    | .popped m => q.head? = some m
    | .isEmpty b => b = q.isEmpty
  next r q := match r.2 with
    | .pushed m => q ++ [m]
    | .popped _ => q.tail
    | .isEmpty _ => q

/-- The statements with which the calls take effect. -/
def effects : Label T → List (T × Return)
  | .notifyOne t m _ => [(t, .pushed m)]
  | .front t m => [(t, .popped m)]
  | .isEmpty t b => [(t, .isEmpty b)]
  | _ => []

def pushed (rs : List (T × Return)) : List Ptr :=
  rs.filterMap fun r => match r.2 with
    | .pushed m => some m
    | _ => none

def popped (rs : List (T × Return)) : List Ptr :=
  rs.filterMap fun r => match r.2 with
    | .popped m => some m
    | _ => none

/-- How far a thread is in its call. -/
inductive Stage
  | idle
  | before (c : Call)
  /-- The call has taken effect. -/
  | after (r : Return)

def Point.stage : Point → Stage
  | .outside => .idle
  | .pushLock m => .before (.push m)
  | .pushAppend m => .before (.push m)
  | .pushNotify m => .before (.push m)
  | .popLock => .before .pop
  | .popTest => .before .pop
  | .popWait => .before .pop
  | .asleep => .before .pop
  | .notified => .before .pop
  | .popFront => .before .pop
  | .popRemove m => .after (.popped m)
  | .emptyLock => .before .empty
  | .emptyTest => .before .empty
  | .unlock r => .after r

/-- The call that a thread is in. -/
def Stage.calls : Stage → List Call
  | .idle => []
  | .before c => [c]
  | .after r => [r.call]

def Stage.effects : Stage → List Return
  | .after r => [r]
  | _ => []

/-- The calls of a thread, in the order of its program. -/
def calls (t : T) (ls : List (Label T)) : List Call :=
  ls.filterMap fun
    | .call t' c => if t' = t then some c else none
    | _ => none

def returns (t : T) (ls : List (Label T)) : List Return :=
  ls.filterMap fun
    | .ret t' r => if t' = t then some r else none
    | _ => none

def effectsOf (t : T) (ls : List (Label T)) : List Return :=
  ((ls.flatMap effects).filter fun r => r.1 = t).map Prod.snd

/-- The calls can be put in one order: that of a queue to which one call is made after the
other, with what the threads really get back, and each call between its beginning and its
return. -/
structure Linearizes (ls : List (Label T)) (s : State T) : Prop where
  serial : (fifo T).Legal [] (ls.flatMap effects)
  called : ∀ t, calls t ls = (returns t ls).map Return.call ++ (s.point t).stage.calls
  effected : ∀ t, effectsOf t ls = returns t ls ++ (s.point t).stage.effects
  /-- Nothing is lost or popped twice. -/
  conserved : s.mtx = none →
    pushed (ls.flatMap effects) = popped (ls.flatMap effects) ++ s.msgQueue

/-! ### The queue whose operations take effect at once -/

/-- What a statement is there. A push takes effect when somebody is woken up, and a pop when the
first message is moved out. -/
def atomic : Label T → List (CondQueue.Step T Ptr)
  | .call t .pop => [.enter t]
  | .notifyOne _ m woken => [.push m woken]
  | .wait t => [.check t]
  | .spurious t => [.spurious t]
  | .front t _ => [.check t]
  | .isEmpty _ _ => [.empty]
  | _ => []

/-- Where a thread stands there. -/
def At : Point → CondQueue.Phase → Prop
  | .popLock, p => p.Active
  | .popTest, p => p.Active
  | .popWait, p => p.Active
  | .popFront, p => p.Active
  | .asleep, p => p = .asleep
  | .notified, p => p = .notified
  | _, p => p = .outside

/-- What the thread that holds the mutex has made of the queue. -/
def Shows : Point → List Ptr → List Ptr → Prop
  | .pushNotify m, q, q' => q = q' ++ [m]
  | .popWait, q, q' => q = q' ∧ q' = []
  | .popFront, q, q' => q = q' ∧ q' ≠ []
  | .popRemove _, q, q' => q = none :: q'
  | _, q, q' => q = q'

structure Refines (s : State T) (a : CondQueue.State T Ptr) : Prop where
  holder : ∀ t, (s.point t).Holds ↔ s.mtx = some t
  held : ∀ t, (s.point t).Holds → Shows (s.point t) s.msgQueue a.queue
  free : s.mtx = none → s.msgQueue = a.queue
  stands : ∀ t, At (s.point t) (a.phase t)

variable {s : State T} {a : CondQueue.State T Ptr}

@[simp] lemma setPoint_self (s : State T) (t : T) (p : Point) : (s.setPoint t p).point t = p := by
  simp [State.setPoint]

@[simp] lemma setPoint_msgQueue (s : State T) (t : T) (p : Point) :
    (s.setPoint t p).msgQueue = s.msgQueue := rfl
@[simp] lemma setPoint_mtx (s : State T) (t : T) (p : Point) : (s.setPoint t p).mtx = s.mtx := rfl

lemma setPoint_ne (s : State T) {t t' : T} (h : t' ≠ t) (p : Point) :
    (s.setPoint t p).point t' = s.point t' := by
  simp [State.setPoint, h]

omit [DecidableEq T] in
lemma Refines.alone (h : Refines s a) {t : T} (ht : (s.point t).Holds) :
    ∀ t' ≠ t, ¬ (s.point t').Holds := by
  intro t' hne ht'
  have hsame := ((h.holder t').mp ht').symm.trans ((h.holder t).mp ht)
  exact hne (Option.some.inj hsame)

omit [DecidableEq T] in
lemma Refines.nobody (h : Refines s a) (hfree : s.mtx = none) (t : T) : ¬ (s.point t).Holds := by
  rw [h.holder t, hfree]
  nofun

/-- A thread that does not hold the mutex goes on to where it does not. -/
lemma Refines.outer (h : Refines s a) {t : T} (ht : ¬ (s.point t).Holds) {p : Point}
    (hp : ¬ p.Holds) {a' : CondQueue.State T Ptr} (hat : At p (a'.phase t))
    (hphase : ∀ t' ≠ t, a'.phase t' = a.phase t') (hqueue : a'.queue = a.queue) :
    Refines (s.setPoint t p) a' where
  holder t' := by
    by_cases hne : t' = t
    · subst hne
      have hnot := mt (h.holder t').mpr ht
      simpa [hp] using hnot
    · rw [setPoint_ne s hne]
      exact h.holder t'
  held t' ht' := by
    by_cases hne : t' = t
    · subst hne
      exact absurd (by simpa using ht') hp
    · rw [setPoint_ne s hne] at ht' ⊢
      rw [hqueue]
      exact h.held t' ht'
  free hfree := hqueue ▸ h.free hfree
  stands t' := by
    by_cases hne : t' = t
    · subst hne
      simpa using hat
    · rw [setPoint_ne s hne, hphase t' hne]
      exact h.stands t'

/-- One thread makes a step, and has the mutex after it or has given it up. -/
lemma Refines.inner (h : Refines s a) {t : T} (hothers : ∀ t' ≠ t, ¬ (s.point t').Holds) {p : Point}
    {q : List Ptr} {mtx : Option T} (hmtx : p.Holds ∧ mtx = some t ∨ ¬ p.Holds ∧ mtx = none)
    {a' : CondQueue.State T Ptr} (hshows : Shows p q a'.queue) (hat : At p (a'.phase t))
    (hfree : mtx = none → q = a'.queue) (hphase : ∀ t' ≠ t, a'.phase t' = a.phase t') :
    Refines (State.setPoint { s with msgQueue := q, mtx := mtx } t p) a' where
  holder t' := by
    by_cases hne : t' = t
    · subst hne
      rcases hmtx with ⟨hp, rfl⟩ | ⟨hp, rfl⟩ <;> simp [State.setPoint, hp]
    · rw [setPoint_ne _ hne]
      have hnot := hothers t' hne
      rcases hmtx with ⟨-, rfl⟩ | ⟨-, rfl⟩ <;> simp [State.setPoint, hnot, Ne.symm hne]
  held t' ht' := by
    by_cases hne : t' = t
    · subst hne
      simpa using hshows
    · rw [setPoint_ne _ hne] at ht'
      exact absurd ht' (hothers t' hne)
  free := hfree
  stands t' := by
    by_cases hne : t' = t
    · subst hne
      simpa using hat
    · rw [setPoint_ne _ hne, hphase t' hne]
      exact h.stands t'

lemma Refines.stay (h : Refines s a) {t : T} (ht : (s.point t).Holds) {p : Point} (hp : p.Holds)
    {q : List Ptr} {a' : CondQueue.State T Ptr} (hshows : Shows p q a'.queue)
    (hat : At p (a'.phase t)) (hphase : ∀ t' ≠ t, a'.phase t' = a.phase t') :
    Refines (State.setPoint { s with msgQueue := q } t p) a' := by
  have hmtx := (h.holder t).mp ht
  exact h.inner (h.alone ht) (.inl ⟨hp, hmtx⟩) hshows hat (by simp [hmtx]) hphase

lemma Refines.leave (h : Refines s a) {t : T} (ht : (s.point t).Holds) {p : Point}
    (hp : ¬ p.Holds) {a' : CondQueue.State T Ptr} (hshows : Shows p s.msgQueue a'.queue)
    (hqueue : s.msgQueue = a'.queue) (hat : At p (a'.phase t))
    (hphase : ∀ t' ≠ t, a'.phase t' = a.phase t') :
    Refines (State.setPoint { s with mtx := none } t p) a' :=
  h.inner (h.alone ht) (.inr ⟨hp, rfl⟩) hshows hat (fun _ => hqueue) hphase

lemma locked_spec {p p' : Point} (h : p.locked = some p') :
    p'.Holds ∧ (∀ q : List Ptr, Shows p' q q) ∧ ∀ ph, At p ph → At p' ph := by
  cases p with
  | notified =>
    cases h
    exact ⟨trivial, fun _ => rfl, fun _ hat => .inr hat⟩
  | pushLock m =>
    cases h
    exact ⟨trivial, fun _ => rfl, fun _ hat => hat⟩
  | popLock =>
    cases h
    exact ⟨trivial, fun _ => rfl, fun _ hat => hat⟩
  | emptyLock =>
    cases h
    exact ⟨trivial, fun _ => rfl, fun _ hat => hat⟩
  | _ => cases h

/-- Who sleeps there sleeps here. -/
lemma eq_asleep_of_at {p : Point} (h : At p .asleep) : p = .asleep := by
  cases p <;> simp_all [At, CondQueue.Phase.Active]

lemma stage_locked {p p' : Point} (h : p.locked = some p') : p'.stage = p.stage := by
  cases p <;> cases h <;> rfl

/-- Each statement is matched. -/
lemma refines_step {l : Label T} (h : Refines s a) (hl : enabled l s) :
    CondQueue.lts.Legal a (atomic l) ∧ Refines (next l s) (CondQueue.lts.run a (atomic l)) := by
  cases l with
  | call t c =>
    have ht : s.point t = .outside := hl
    have hout : a.phase t = .outside := by simpa [At, ht] using h.stands t
    have hnot : ¬ (s.point t).Holds := by simp [ht, Point.Holds]
    cases c with
    | push m =>
      exact ⟨trivial, h.outer hnot (p := .pushLock m) id hout (fun _ _ => rfl) rfl⟩
    | empty =>
      exact ⟨trivial, h.outer hnot (p := .emptyLock) id hout (fun _ _ => rfl) rfl⟩
    | pop =>
      refine ⟨⟨hout, trivial⟩, h.outer hnot (p := .popLock) id ?_ ?_ rfl⟩
      · exact .inl (CondQueue.set_phase_self a t .awake)
      · exact fun t' hne => CondQueue.set_phase_ne a hne .awake
  | lock t =>
    obtain ⟨hfree, hlocked⟩ := hl
    obtain ⟨p, hp⟩ := Option.ne_none_iff_exists'.mp hlocked
    obtain ⟨hholds, hshows, hat⟩ := locked_spec hp
    have hnext : next (.lock t) s = State.setPoint { s with mtx := some t } t p := by
      simp [next, hp]
    rw [hnext]
    exact ⟨trivial, h.inner (fun t' _ => h.nobody hfree t') (.inl ⟨hholds, rfl⟩)
      (h.free hfree ▸ hshows _) (hat _ (h.stands t)) nofun fun _ _ => rfl⟩
  | append t =>
    obtain ⟨m, ht⟩ := hl
    have hnext : next (.append t) s =
        State.setPoint { s with msgQueue := s.msgQueue ++ [m] } t (.pushNotify m) := by
      simp [next, ht]
    have hholds : (s.point t).Holds := ht ▸ trivial
    have hqueue : s.msgQueue = a.queue := by simpa [ht, Shows] using h.held t hholds
    have hout : a.phase t = .outside := by simpa [ht, At] using h.stands t
    rw [hnext]
    exact ⟨trivial, h.stay (p := .pushNotify m) hholds trivial (congrArg (· ++ [m]) hqueue) hout
      fun _ _ => rfl⟩
  | notifyOne t m woken =>
    cases woken with
    | none =>
      obtain ⟨ht, hnone⟩ := hl
      have hholds : (s.point t).Holds := ht ▸ trivial
      have hqueue : s.msgQueue = a.queue ++ [m] := by simpa [ht, Shows] using h.held t hholds
      have hout : a.phase t = .outside := by simpa [ht, At] using h.stands t
      have hawake : ∀ c, a.phase c ≠ .asleep :=
        fun c hc => hnone c (eq_asleep_of_at (hc ▸ h.stands c))
      exact ⟨⟨hawake, trivial⟩, h.stay (p := .unlock (.pushed m)) (q := s.msgQueue) hholds trivial
        hqueue hout fun _ _ => rfl⟩
    | some c =>
      obtain ⟨ht, hc⟩ := hl
      have hasleep : a.phase c = .asleep := by simpa [At, hc] using h.stands c
      have hnot : ¬ (s.point c).Holds := by simp [hc, Point.Holds]
      -- the sleeper wakes up, and then the thread that has woken it up goes on
      have hwoken : Refines (s.setPoint c .notified) (a.set c .notified) :=
        h.outer hnot (p := .notified) id (CondQueue.set_phase_self a c .notified)
          (fun t' hne => CondQueue.set_phase_ne a hne .notified) rfl
      have hne : t ≠ c := by
        rintro rfl
        simp [hc] at ht
      have ht' : (s.setPoint c .notified).point t = .pushNotify m := by rw [setPoint_ne s hne, ht]
      have hholds : ((s.setPoint c .notified).point t).Holds := ht' ▸ trivial
      have hqueue : s.msgQueue = a.queue ++ [m] := by
        simpa [ht', Shows, CondQueue.State.set] using hwoken.held t hholds
      have hout : (a.set c .notified).phase t = .outside := by
        simpa [ht', At] using hwoken.stands t
      exact ⟨⟨hasleep, trivial⟩, hwoken.stay (p := .unlock (.pushed m)) (q := s.msgQueue) hholds
        trivial hqueue hout fun _ _ => rfl⟩
  | test t =>
    have ht : s.point t = .popTest := hl
    have hholds : (s.point t).Holds := ht ▸ trivial
    have hqueue : s.msgQueue = a.queue := by simpa [ht, Shows] using h.held t hholds
    have hactive : (a.phase t).Active := by simpa [ht, At] using h.stands t
    refine ⟨trivial, ?_⟩
    by_cases hnil : s.msgQueue = []
    · have hnext : next (.test t) s = s.setPoint t .popWait := by simp [next, hnil]
      rw [hnext]
      exact h.stay (p := .popWait) (q := s.msgQueue) hholds trivial ⟨hqueue, hqueue ▸ hnil⟩
        hactive fun _ _ => rfl
    · have hnext : next (.test t) s = s.setPoint t .popFront := by simp [next, hnil]
      rw [hnext]
      exact h.stay (p := .popFront) (q := s.msgQueue) hholds trivial ⟨hqueue, hqueue ▸ hnil⟩
        hactive fun _ _ => rfl
  | wait t =>
    have ht : s.point t = .popWait := hl
    have hholds : (s.point t).Holds := ht ▸ trivial
    obtain ⟨hqueue, hnil⟩ : s.msgQueue = a.queue ∧ a.queue = [] := by
      simpa [ht, Shows] using h.held t hholds
    have hactive : (a.phase t).Active := by simpa [ht, At] using h.stands t
    have hcheck : CondQueue.next (.check t) a = a.set t .asleep := by simp [CondQueue.next, hnil]
    refine ⟨⟨hactive, trivial⟩, ?_⟩
    change Refines (next (.wait t) s) (CondQueue.next (.check t) a)
    rw [hcheck]
    exact h.leave hholds id hqueue hqueue (CondQueue.set_phase_self a t .asleep)
      fun t' hne => CondQueue.set_phase_ne a hne .asleep
  | spurious t =>
    have ht : s.point t = .asleep := hl
    have hasleep : a.phase t = .asleep := by simpa [At, ht] using h.stands t
    have hnot : ¬ (s.point t).Holds := by simp [ht, Point.Holds]
    refine ⟨⟨hasleep, trivial⟩, h.outer hnot (p := .notified) id ?_ ?_ rfl⟩
    · exact CondQueue.set_phase_self a t .notified
    · exact fun t' hne => CondQueue.set_phase_ne a hne .notified
  | front t m =>
    obtain ⟨ht, hhead⟩ := hl
    have hholds : (s.point t).Holds := ht ▸ trivial
    obtain ⟨hqueue, -⟩ : s.msgQueue = a.queue ∧ a.queue ≠ [] := by
      simpa [ht, Shows] using h.held t hholds
    have hactive : (a.phase t).Active := by simpa [ht, At] using h.stands t
    obtain ⟨rest, hrest⟩ := List.head?_eq_some_iff.mp (hqueue ▸ hhead)
    have hcheck : CondQueue.next (.check t) a =
        CondQueue.State.set { a with queue := rest } t .outside := by
      simp [CondQueue.next, hrest]
    refine ⟨⟨hactive, trivial⟩, ?_⟩
    change Refines (next (.front t m) s) (CondQueue.next (.check t) a)
    rw [hcheck]
    refine h.stay (p := .popRemove m) (q := none :: s.msgQueue.tail) hholds trivial ?_ ?_ ?_
    · simp [Shows, hqueue, hrest, CondQueue.State.set]
    · exact CondQueue.set_phase_self _ t .outside
    · exact fun t' hne => CondQueue.set_phase_ne _ hne .outside
  | remove t =>
    obtain ⟨m, ht⟩ := hl
    have hnext : next (.remove t) s =
        State.setPoint { s with msgQueue := s.msgQueue.tail } t (.unlock (.popped m)) := by
      simp [next, ht]
    have hholds : (s.point t).Holds := ht ▸ trivial
    have hqueue : s.msgQueue = none :: a.queue := by simpa [ht, Shows] using h.held t hholds
    have hout : a.phase t = .outside := by simpa [ht, At] using h.stands t
    rw [hnext]
    exact ⟨trivial, h.stay (p := .unlock (.popped m)) hholds trivial (congrArg List.tail hqueue)
      hout fun _ _ => rfl⟩
  | isEmpty t b =>
    obtain ⟨ht, -⟩ := hl
    have hholds : (s.point t).Holds := ht ▸ trivial
    have hqueue : s.msgQueue = a.queue := by simpa [ht, Shows] using h.held t hholds
    have hout : a.phase t = .outside := by simpa [ht, At] using h.stands t
    exact ⟨⟨trivial, trivial⟩, h.stay (p := .unlock (.isEmpty b)) (q := s.msgQueue) hholds trivial
      hqueue hout fun _ _ => rfl⟩
  | ret t r =>
    have ht : s.point t = .unlock r := hl
    have hholds : (s.point t).Holds := ht ▸ trivial
    have hqueue : s.msgQueue = a.queue := by simpa [ht, Shows] using h.held t hholds
    have hout : a.phase t = .outside := by simpa [ht, At] using h.stands t
    exact ⟨trivial, h.leave (p := .outside) hholds id hqueue hqueue hout fun _ _ => rfl⟩

omit [DecidableEq T] in
lemma refines_start : Refines (start : State T) CondQueue.start where
  holder _ := ⟨nofun, nofun⟩
  held _ ht := absurd ht id
  free _ := rfl
  stands _ := rfl

/-- **Every run is one of the queue whose operations take effect at once.** -/
theorem refines_of_legal {ls : List (Label T)} (h : lts.Legal start ls) :
    CondQueue.lts.Legal CondQueue.start (ls.flatMap atomic) ∧
      Refines (lts.run start ls) (CondQueue.lts.run CondQueue.start (ls.flatMap atomic)) :=
  h.simulation (r := Refines) (f := atomic) (fun _ _ _ hr hl => refines_step hr hl) refines_start

/-! ### Histories -/

/-- The effects of a statement are those on the queue. -/
lemma effects_step {l : Label T} (h : Refines s a) (hl : enabled l s) :
    (fifo T).Legal a.queue (effects l) ∧
      (fifo T).run a.queue (effects l) = (CondQueue.lts.run a (atomic l)).queue := by
  cases l with
  | call t c => cases c <;> exact ⟨trivial, rfl⟩
  | notifyOne t m woken => cases woken <;> exact ⟨⟨trivial, trivial⟩, rfl⟩
  | wait t =>
    have ht : s.point t = .popWait := hl
    obtain ⟨-, hnil⟩ : s.msgQueue = a.queue ∧ a.queue = [] := by
      simpa [ht, Shows] using h.held t (ht ▸ trivial)
    refine ⟨trivial, ?_⟩
    change a.queue = (CondQueue.next (.check t) a).queue
    simp [CondQueue.next, hnil, CondQueue.State.set]
  | front t m =>
    obtain ⟨ht, hhead⟩ := hl
    obtain ⟨hqueue, -⟩ : s.msgQueue = a.queue ∧ a.queue ≠ [] := by
      simpa [ht, Shows] using h.held t (ht ▸ trivial)
    rw [hqueue] at hhead
    refine ⟨⟨hhead, trivial⟩, ?_⟩
    obtain ⟨rest, hrest⟩ := List.head?_eq_some_iff.mp hhead
    change a.queue.tail = (CondQueue.next (.check t) a).queue
    simp [CondQueue.next, hrest, CondQueue.State.set]
  | isEmpty t b =>
    obtain ⟨ht, hb⟩ := hl
    have hqueue : s.msgQueue = a.queue := by simpa [ht, Shows] using h.held t (ht ▸ trivial)
    exact ⟨⟨hqueue ▸ hb, trivial⟩, rfl⟩
  | _ => exact ⟨trivial, rfl⟩

omit [DecidableEq T] in
lemma conserved_of_legal {q : List Ptr} {rs : List (T × Return)} (h : (fifo T).Legal q rs) :
    q ++ pushed rs = popped rs ++ (fifo T).run q rs := by
  induction rs generalizing q with
  | nil => simp [pushed, popped]
  | cons r rs ih =>
    obtain ⟨hr, hrest⟩ := h
    have hih := ih hrest
    obtain ⟨t, r⟩ := r
    cases r with
    | pushed m => simpa [pushed, popped, fifo] using hih
    | popped m =>
      obtain ⟨rest, rfl⟩ := List.head?_eq_some_iff.mp hr
      simpa [pushed, popped, fifo] using hih
    | isEmpty b => simpa [pushed, popped, fifo] using hih

/-- Whose statement it is. -/
def Label.thread : Label T → T
  | .call t _ => t
  | .lock t => t
  | .append t => t
  | .notifyOne t _ _ => t
  | .test t => t
  | .wait t => t
  | .spurious t => t
  | .front t _ => t
  | .remove t => t
  | .isEmpty t _ => t
  | .ret t _ => t

/-- Where a statement takes its thread. -/
inductive Goes : Label T → Point → Point → Prop
  | call (t : T) (c : Call) : Goes (.call t c) .outside (.enter c)
  | lock (t : T) {p p' : Point} (h : p.locked = some p') : Goes (.lock t) p p'
  | append (t : T) (m : Ptr) : Goes (.append t) (.pushAppend m) (.pushNotify m)
  | notifyOne (t : T) (m : Ptr) (woken : Option T) :
    Goes (.notifyOne t m woken) (.pushNotify m) (.unlock (.pushed m))
  | test (t : T) (b : Bool) : Goes (.test t) .popTest (if b then .popWait else .popFront)
  | wait (t : T) : Goes (.wait t) .popWait .asleep
  | spurious (t : T) : Goes (.spurious t) .asleep .notified
  | front (t : T) (m : Ptr) : Goes (.front t m) .popFront (.popRemove m)
  | remove (t : T) (m : Ptr) : Goes (.remove t) (.popRemove m) (.unlock (.popped m))
  | isEmpty (t : T) (b : Bool) : Goes (.isEmpty t b) .emptyTest (.unlock (.isEmpty b))
  | ret (t : T) (r : Return) : Goes (.ret t r) (.unlock r) .outside

lemma goes_of_enabled {l : Label T} (hl : enabled l s) :
    Goes l (s.point l.thread) ((next l s).point l.thread) := by
  cases l with
  | call t c =>
    have ht : s.point t = .outside := hl
    simpa [Label.thread, next, ht] using Goes.call t c
  | lock t =>
    obtain ⟨p, hp⟩ := Option.ne_none_iff_exists'.mp hl.2
    simpa [Label.thread, next, hp] using Goes.lock t hp
  | append t =>
    obtain ⟨m, ht⟩ := hl
    simpa [Label.thread, next, ht] using Goes.append t m
  | notifyOne t m woken =>
    cases woken with
    | none => simpa [Label.thread, next, hl.1] using Goes.notifyOne t m none
    | some c => simpa [Label.thread, next, hl.1] using Goes.notifyOne t m (some c)
  | test t =>
    have ht : s.point t = .popTest := hl
    simpa [Label.thread, next, ht] using Goes.test t s.msgQueue.isEmpty
  | wait t =>
    have ht : s.point t = .popWait := hl
    simpa [Label.thread, next, ht] using Goes.wait t
  | spurious t =>
    have ht : s.point t = .asleep := hl
    simpa [Label.thread, next, ht] using Goes.spurious t
  | front t m => simpa [Label.thread, next, hl.1] using Goes.front t m
  | remove t =>
    obtain ⟨m, ht⟩ := hl
    simpa [Label.thread, next, ht] using Goes.remove t m
  | isEmpty t b => simpa [Label.thread, next, hl.1] using Goes.isEmpty t b
  | ret t r =>
    have ht : s.point t = .unlock r := hl
    simpa [Label.thread, next, ht] using Goes.ret t r

/-- A statement leaves the other threads where they are, but for a sleeper that it wakes up. -/
lemma point_of_ne {l : Label T} (hl : enabled l s) {t : T} (ht : t ≠ l.thread) :
    (next l s).point t = s.point t ∨ (∃ t' m, l = .notifyOne t' m (some t)) ∧
      s.point t = .asleep ∧ (next l s).point t = .notified := by
  cases l with
  | lock t' =>
    obtain ⟨p, hp⟩ := Option.ne_none_iff_exists'.mp hl.2
    simp only [next, hp]
    exact .inl (setPoint_ne _ ht p)
  | append t' =>
    obtain ⟨m, hm⟩ := hl
    simp only [next, hm]
    exact .inl (setPoint_ne _ ht (.pushNotify m))
  | remove t' =>
    obtain ⟨m, hm⟩ := hl
    simp only [next, hm]
    exact .inl (setPoint_ne _ ht (.unlock (.popped m)))
  | notifyOne t' m woken =>
    cases woken with
    | none => exact .inl (setPoint_ne s ht _)
    | some c =>
      have hnext : (next (.notifyOne t' m (some c)) s).point t = (s.setPoint c .notified).point t :=
        setPoint_ne _ ht _
      by_cases hc : t = c
      · subst hc
        exact .inr ⟨⟨t', m, rfl⟩, hl.2, hnext.trans (setPoint_self s t .notified)⟩
      · exact .inl (hnext.trans (setPoint_ne s hc _))
  | _ => exact .inl (setPoint_ne _ ht _)

/-- A thread falls asleep in `wait` only, and wakes up when it is notified or for no reason. -/
lemma asleep_iff {l : Label T} (hl : enabled l s) {t : T} (hwait : l ≠ .wait t)
    (hspurious : l ≠ .spurious t) (hnotify : ∀ t' m, l ≠ .notifyOne t' m (some t)) :
    (next l s).point t = .asleep ↔ s.point t = .asleep := by
  by_cases ht : t = l.thread
  · subst ht
    have hgoes := goes_of_enabled hl
    generalize s.point l.thread = p at hgoes
    generalize (next l s).point l.thread = p' at hgoes
    cases hgoes with
    | call t c => cases c <;> simp [Point.enter]
    | lock t h => cases p <;> cases h <;> simp
    | test t b => cases b <;> simp
    | wait t => exact absurd rfl hwait
    | spurious t => exact absurd rfl hspurious
    | _ => simp
  · rcases point_of_ne hl ht with heq | ⟨⟨t', m, heq⟩, -⟩
    · rw [heq]
    · exact absurd heq (hnotify t' m)

/-- A statement takes no other thread further in its call. -/
lemma stage_of_ne {l : Label T} (hl : enabled l s) {t : T} (ht : t ≠ l.thread) :
    ((next l s).point t).stage = (s.point t).stage := by
  rcases point_of_ne hl ht with heq | ⟨-, hasleep, hnotified⟩
  · rw [heq]
  · rw [hasleep, hnotified]
    rfl

/-- A call begins, takes effect and returns in this order. -/
lemma stage_step {l : Label T} (hl : enabled l s) (t : T) :
    (s.point t).stage.calls ++ calls t [l] =
        (returns t [l]).map Return.call ++ ((next l s).point t).stage.calls ∧
      (s.point t).stage.effects ++ effectsOf t [l] =
        returns t [l] ++ ((next l s).point t).stage.effects := by
  by_cases ht : t = l.thread
  · subst ht
    have hgoes := goes_of_enabled hl
    generalize s.point l.thread = p at hgoes
    generalize (next l s).point l.thread = p' at hgoes
    cases hgoes with
    | call t c => cases c <;> simp [calls, returns, effectsOf, effects, Label.thread, Point.enter,
        Point.stage, Stage.calls, Stage.effects]
    | lock t h =>
      simp [calls, returns, effectsOf, effects, stage_locked h]
    | test t b => cases b <;> simp [calls, returns, effectsOf, effects, Point.stage]
    | _ => simp [calls, returns, effectsOf, effects, Label.thread, Point.stage, Stage.calls,
        Stage.effects, Return.call]
  · rw [stage_of_ne hl ht]
    have hne : l.thread ≠ t := Ne.symm ht
    have hcalls : calls t [l] = [] := by
      cases l <;> simp_all [calls, Label.thread]
    have hreturns : returns t [l] = [] := by
      cases l <;> simp_all [returns, Label.thread]
    have heffects : effectsOf t [l] = [] := by
      cases l <;> simp_all [effectsOf, effects, Label.thread]
    simp [hcalls, hreturns, heffects]

lemma histories_of_legal {ls : List (Label T)} (h : lts.Legal start ls) (t : T) :
    calls t ls = (returns t ls).map Return.call ++ ((lts.run start ls).point t).stage.calls ∧
      effectsOf t ls = returns t ls ++ ((lts.run start ls).point t).stage.effects := by
  refine h.history (p := fun ls s => calls t ls = (returns t ls).map Return.call ++
    (s.point t).stage.calls ∧ effectsOf t ls = returns t ls ++ (s.point t).stage.effects)
    ⟨rfl, rfl⟩ fun ls l _ ih hl => ?_
  obtain ⟨hcalls, heffects⟩ := stage_step hl t
  have happend : calls t (ls ++ [l]) = calls t ls ++ calls t [l] := List.filterMap_append
  have happend' : returns t (ls ++ [l]) = returns t ls ++ returns t [l] := List.filterMap_append
  have happend'' : effectsOf t (ls ++ [l]) = effectsOf t ls ++ effectsOf t [l] := by
    simp [effectsOf]
  constructor
  · rw [happend, happend', ih.1, List.append_assoc, hcalls, List.map_append, List.append_assoc]
    rfl
  · rw [happend'', happend', ih.2, List.append_assoc, heffects, List.append_assoc]
    rfl

/-- **The queue is linearizable**, for any number of threads that push and pop. -/
theorem linearizes_of_legal {ls : List (Label T)} (h : lts.Legal start ls) :
    Linearizes ls (lts.run start ls) := by
  have hstep : ∀ (l : Label T) (s : State T) (q : List Ptr), (∃ a, Refines s a ∧ a.queue = q) →
      enabled l s → (fifo T).Legal q (effects l) ∧
        ∃ a, Refines (next l s) a ∧ a.queue = (fifo T).run q (effects l) := by
    rintro l s q ⟨a, hr, rfl⟩ hl
    obtain ⟨hlegal, hrun⟩ := effects_step hr hl
    exact ⟨hlegal, _, (refines_step hr hl).2, hrun.symm⟩
  obtain ⟨hserial, a, hr, hq⟩ := h.simulation (f := effects)
    (r := fun s q => ∃ a, Refines s a ∧ a.queue = q) hstep ⟨_, refines_start, rfl⟩
  refine ⟨hserial, fun t => (histories_of_legal h t).1, fun t => (histories_of_legal h t).2,
    fun hfree => ?_⟩
  rw [hr.free hfree, hq]
  exact conserved_of_legal hserial

/-- Thread `0` is woken up for a message that thread `2` takes, and goes to sleep again. -/
def overtaken : List (Label (Fin 3)) :=
  let m : Ptr := some ⟨0, .ealInfo, [], [], .default, [], 0, []⟩
  [.call 0 .pop, .lock 0, .test 0, .wait 0, .call 1 (.push m), .call 2 .pop, .lock 1, .append 1,
    .notifyOne 1 m (some 0), .ret 1 (.pushed m), .lock 2, .test 2, .front 2 m, .remove 2,
    .ret 2 (.popped m), .lock 0, .test 0, .wait 0]

lemma legal_overtaken : lts.Legal start overtaken := by
  simp [overtaken, lts, start, enabled, next, State.setPoint, Point.enter, Point.locked]

theorem linearizes_of_legal_overtaken : Linearizes overtaken (lts.run start overtaken) :=
  linearizes_of_legal legal_overtaken

/-! ### Waking up -/

/-- All that can still happen are new calls, and sleepers that wake up for no reason. -/
def Still (s : State T) : Prop :=
  ∀ l, enabled l s → (∃ t c, l = .call t c) ∨ ∃ t, l = .spurious t

/-- Threads that are outside or asleep do nothing by themselves. -/
lemma still_of_forall (h : ∀ t, s.point t = .outside ∨ s.point t = .asleep) : Still s := by
  intro l hl
  have hgoes := goes_of_enabled hl
  generalize (next l s).point l.thread = p' at hgoes
  rcases h l.thread with hout | hsleep
  · rw [hout] at hgoes
    cases hgoes with
    | call t c => exact .inl ⟨t, c, rfl⟩
    | lock t h => cases h
  · rw [hsleep] at hgoes
    cases hgoes with
    | spurious t => exact .inr ⟨t, rfl⟩
    | lock t h => cases h

omit [DecidableEq T] in
/-- Whoever holds the mutex can go on. -/
lemma exists_enabled_of_holds (h : Refines s a) {t : T} (ht : (s.point t).Holds) :
    ∃ l, enabled l s ∧ (∀ t c, l ≠ .call t c) ∧ ∀ t, l ≠ .spurious t := by
  cases hp : s.point t with
  | pushAppend m => exact ⟨.append t, ⟨m, hp⟩, nofun, nofun⟩
  | pushNotify m =>
    by_cases hc : ∃ c, s.point c = .asleep
    · obtain ⟨c, hc⟩ := hc
      exact ⟨.notifyOne t m (some c), ⟨hp, hc⟩, nofun, nofun⟩
    · exact ⟨.notifyOne t m none, ⟨hp, not_exists.mp hc⟩, nofun, nofun⟩
  | popTest => exact ⟨.test t, hp, nofun, nofun⟩
  | popWait => exact ⟨.wait t, hp, nofun, nofun⟩
  | popFront =>
    obtain ⟨hqueue, hne⟩ : s.msgQueue = a.queue ∧ a.queue ≠ [] := by
      simpa [hp, Shows] using h.held t ht
    obtain ⟨m, rest, hrest⟩ := List.exists_cons_of_ne_nil (hqueue ▸ hne)
    exact ⟨.front t m, ⟨hp, by simp [hrest]⟩, nofun, nofun⟩
  | popRemove m => exact ⟨.remove t, ⟨m, hp⟩, nofun, nofun⟩
  | emptyTest => exact ⟨.isEmpty t s.msgQueue.isEmpty, ⟨hp, rfl⟩, nofun, nofun⟩
  | unlock r => exact ⟨.ret t r, hp, nofun, nofun⟩
  | _ => simp [hp, Point.Holds] at ht

omit [DecidableEq T] in
lemma Refines.quiet (hr : Refines s a) (hwake : CondQueue.NoLostWakeup a) (hstill : Still s) :
    s.mtx = none ∧ ∀ t, s.point t = .outside ∨ s.point t = .asleep ∧ s.msgQueue = [] := by
  have hnobody : ∀ t, ¬ (s.point t).Holds := by
    intro t ht
    obtain ⟨l, hl, hcall, hspurious⟩ := exists_enabled_of_holds hr ht
    rcases hstill l hl with ⟨t, c, rfl⟩ | ⟨t, rfl⟩
    · exact hcall t c rfl
    · exact hspurious t rfl
  have hfree : s.mtx = none :=
    Option.eq_none_iff_forall_ne_some.mpr fun t ht => hnobody t ((hr.holder t).mpr ht)
  have hpoint : ∀ t, s.point t = .outside ∨ s.point t = .asleep := by
    intro t
    have hlocked : (s.point t).locked = none := by
      by_contra hne
      rcases hstill (.lock t) ⟨hfree, hne⟩ with ⟨t, c, heq⟩ | ⟨t, heq⟩ <;> cases heq
    have hnot := hnobody t
    cases hp : s.point t <;> simp_all [Point.locked, Point.Holds]
  refine ⟨hfree, fun t => (hpoint t).imp_right fun ht => ⟨ht, ?_⟩⟩
  by_contra hne
  have hasleep : a.phase t = .asleep := by simpa [ht, At] using hr.stands t
  obtain ⟨c, hc⟩ := hwake (hr.free hfree ▸ hne) t hasleep
  -- whoever is on the way there is on the way here
  have hat := hr.stands c
  rcases hpoint c with hout | hsleep
  · have houtside : a.phase c = .outside := by simpa [hout, At] using hat
    simp [houtside, CondQueue.Phase.Active] at hc
  · rw [hsleep] at hat
    exact CondQueue.active_ne_asleep hc hat

/-- **No wake-up is lost.** When nothing more happens by itself, the mutex is free, and every
thread is outside, or asleep with nothing to pop. -/
theorem quiet_of_still {ls : List (Label T)} (h : lts.Legal start ls)
    (hstill : Still (lts.run start ls)) :
    (lts.run start ls).mtx = none ∧ ∀ t, (lts.run start ls).point t = .outside ∨
      (lts.run start ls).point t = .asleep ∧ (lts.run start ls).msgQueue = [] := by
  obtain ⟨hatomic, hr⟩ := refines_of_legal h
  exact hr.quiet (CondQueue.noLostWakeup_of_legal hatomic) hstill

/-- At the end of that run the consumer that came too late sleeps, and nothing is left to pop. -/
theorem quiet_of_still_overtaken :
    (lts.run start overtaken).mtx = none ∧ ∀ t, (lts.run start overtaken).point t = .outside ∨
      (lts.run start overtaken).point t = .asleep ∧
        (lts.run start overtaken).msgQueue = [] := by
  have hpoint : ∀ t, (lts.run start overtaken).point t = .outside ∨
      (lts.run start overtaken).point t = .asleep := by
    decide
  exact quiet_of_still legal_overtaken (still_of_forall hpoint)

end Ealogger.QueueLock
