import Ealogger.Lib.Lts
import Ealogger.Logger

/-!
An asynchronous `Logger`: client threads, the queue, the background thread, the destructor.

A step is what one thread does under one mutex: `LogQueue::push`, `pop` and `empty`, the turn
of the loop of `internal_log_routine` for one sink, a call on a sink, the test and the setting
of the stop flag. The time a message is made at comes with the call. An iterator stands on the
map while a message is dispatched; entries come and go only at other times here, and what
happens otherwise is the subject of `Removal`.
-/

namespace Ealogger

/-- The call by which the destructor wakes up the background thread. -/
def exitCall (now : Int) : LogCall := ⟨now, [], "Logger EXIT".toList, .ealInternal, [], 0, []⟩

/-- Where the background thread is: at the condition of its loop, in `pop`, or in
`internal_log_routine` with the keys still to come. -/
inductive Worker
  | testing
  | popping
  | dispatching (m : LogMessage) (rest : List LoggerSink)
  | exited
  deriving DecidableEq

/-- Where the destructor is; the flag says whether the last poll saw the queue empty. -/
inductive Dtor
  | running
  | polling (i : ℕ)
  | polled (sawEmpty : Bool)
  | stopped (sawEmpty : Bool)
  | joining (sawEmpty : Bool)
  | joined (sawEmpty : Bool)
  deriving DecidableEq

/-- The state shared by the threads and their positions. A client whose message has been
built but not pushed is inside `write_log`. -/
structure Async (ι : Type) where
  logger : Logger
  queue : List LogMessage
  stop : Bool
  worker : Worker
  pending : ι → Option LogMessage
  dtor : Dtor

inductive Label (ι : Type)
  | call (i : ι) (c : LogCall)
  | push (i : ι) (m : LogMessage)
  | sinkCall (i : ι) (o : Op) (dev : Device)
  | queueEmpty (i : ι) (b : Bool)
  | test
  | pop (m : LogMessage)
  | hand (k : LoggerSink) (m : LogMessage) (dev : Device)
  | skip (k : LoggerSink)
  | finish (m : LogMessage)
  | destroy
  | poll
  | setStop
  | pushExit (m : LogMessage)
  | join

/-- The next turn of the loop over the map. -/
def Worker.advance : Worker → Worker
  | .dispatching m (_ :: rest) => .dispatching m rest
  | w => w

def Worker.inHand : Worker → List LogMessage
  | .dispatching m _ => [m]
  | _ => []

/-- The next position of the destructor; `empty` is what `log_msg_queue.empty()` says. The
loop is left when it has gone round a hundred times. -/
def Dtor.advance (empty : Bool) : Dtor → Dtor
  | .running => .polling 0
  | .polling i =>
    if empty then .polled true
    else if i = 100 then .polled false
    else .polling (i + 1)
  | .polled b => .stopped b
  | .stopped b => .joining b
  | .joining b => .joined b
  | .joined b => .joined b

/-- The operations that do not touch the queue. -/
def Op.onSinks : Op → Bool
  | .writeLog .. => false
  | .queueEmpty => false
  | _ => true

/-- The operations that insert an entry into the map or erase one. -/
def Op.rebuilds (L : Logger) : Op → Bool
  | .initSyslogSink .. => (L.loggerSinkMap .ealSyslog).isNone
  | .initConsoleSink .. => (L.loggerSinkMap .ealConsole).isNone
  | .initFileSink .. => (L.loggerSinkMap .ealFileSimple).isNone
  | .discardSink k => (L.loggerSinkMap k).isSome
  | _ => false

namespace Async

variable {ι : Type} [DecidableEq ι]

def enabled (a : Label ι) (s : Async ι) : Prop :=
  match a with
  | .call i _ => s.pending i = none ∧ s.dtor = .running
  | .push i m => s.pending i = some m
  | .sinkCall i o _ => s.pending i = none ∧ s.dtor = .running ∧ o.onSinks = true ∧
      (o.rebuilds s.logger = true → s.worker.inHand = [])
  | .queueEmpty i b => s.pending i = none ∧ s.dtor = .running ∧ b = s.queue.isEmpty
  | .test => s.worker = .testing
  -- `pop` waits until there is something to pop
  | .pop m => s.worker = .popping ∧ s.queue.head? = some m
  | .hand k m _ =>
    (∃ rest, s.worker = .dispatching m (k :: rest)) ∧ (s.logger.loggerSinkMap k).isSome = true
  | .skip k => (∃ m rest, s.worker = .dispatching m (k :: rest)) ∧ s.logger.loggerSinkMap k = none
  | .finish m => s.worker = .dispatching m []
  -- the clients have stopped logging
  | .destroy => s.dtor = .running ∧ ∀ i, s.pending i = none
  | .poll => ∃ i, s.dtor = .polling i
  | .setStop => ∃ b, s.dtor = .polled b
  | .pushExit m => (∃ b, s.dtor = .stopped b) ∧ ∃ now, m = (exitCall now).message
  | .join => (∃ b, s.dtor = .joining b) ∧ s.worker = .exited

def next (env : Env) (a : Label ι) (s : Async ι) : Async ι :=
  match a with
  | .call i c => { s with pending := Function.update s.pending i (some c.message) }
  | .push i m =>
    { s with queue := s.queue ++ [m], pending := Function.update s.pending i none }
  | .sinkCall _ o dev => { s with logger := (s.logger.exec (o, dev)).state }
  | .queueEmpty _ _ => s
  | .test => { s with worker := if s.stop then .exited else .popping }
  | .pop m => { s with queue := s.queue.tail, worker := .dispatching m sinkKeys }
  | .hand k m dev =>
    { s with logger := (s.logger.dispatch env dev m k).state, worker := s.worker.advance }
  | .skip _ => { s with worker := s.worker.advance }
  | .finish _ => { s with worker := .testing }
  | .destroy => { s with dtor := s.dtor.advance s.queue.isEmpty }
  | .poll => { s with dtor := s.dtor.advance s.queue.isEmpty }
  | .setStop => { s with stop := true, dtor := s.dtor.advance s.queue.isEmpty }
  | .pushExit m => { s with queue := s.queue ++ [m], dtor := s.dtor.advance s.queue.isEmpty }
  | .join => { s with dtor := s.dtor.advance s.queue.isEmpty }

def lts (env : Env) : Lts (Async ι) (Label ι) := ⟨enabled, next env⟩

/-- The background thread has been started; sinks may have been set up already. -/
def start (L : Logger) : Async ι := ⟨L, [], false, .testing, fun _ => none, .running⟩

end Async

/-! ### What happened along a run -/

namespace Label

variable {ι : Type}

/-- Who put what into the queue; the destructor counts as nobody. -/
def pushes : Label ι → Option (Option ι × LogMessage)
  | .push i m => some (some i, m)
  | .pushExit m => some (none, m)
  | _ => none

def takes : Label ι → Option LogMessage
  | .pop m => some m
  | _ => none

/-- Dispatched to every sink of the map. -/
def completes : Label ι → Option LogMessage
  | .finish m => some m
  | _ => none

def hands (k : LoggerSink) : Label ι → Option LogMessage
  | .hand j m _ => if j = k then some m else none
  | _ => none

def calls [DecidableEq ι] (i : ι) : Label ι → Option LogMessage
  | .call j c => if j = i then some c.message else none
  | _ => none

end Label

section History

variable {ι : Type} (as : List (Label ι))

def pushed : List (Option ι × LogMessage) := as.filterMap Label.pushes

def taken : List LogMessage := as.filterMap Label.takes

def completed : List LogMessage := as.filterMap Label.completes

/-- The messages a sink has been asked to prepare. -/
def handed (k : LoggerSink) : List LogMessage := as.filterMap (Label.hands k)

/-- The calls of one client in the order of its program. -/
def called [DecidableEq ι] (i : ι) : List LogMessage := as.filterMap (Label.calls i)

end History

/-- The messages of one client among those pushed. -/
def sentBy {ι : Type} [DecidableEq ι] (i : ι) (ps : List (Option ι × LogMessage)) :
    List LogMessage :=
  (ps.filter fun p => p.1 = some i).map Prod.snd

end Ealogger
