import Ealogger.Lib.Locks
import Ealogger.Lib.Lts
import Ealogger.Logger

/-!
The mutexes of the logger, and each function as its sequence of lock and unlock steps.

Which way a function goes depends on data that is left out here, so the outcomes of its tests
come with the call: whatever holds for all outcomes holds for those that the data gives. A
function on a sink is a function of the object, because every object has mutexes of its own.
-/

namespace Ealogger.Locking

/-- The mutexes inside a sink: those of `Sink`, of `SinkFile` and of `SinkConsole`. The mutex of
`SinkSyslog` is taken under `EALOGGER_SYSLOG` only. -/
inductive Field
  | mtxMsgTemplate | mtxDatetimePattern | mtxEnabled | mtxMinLvl | mtxConvPattern
  | mtxFileStream | mtxLogFile
  | mtxConsole
  deriving DecidableEq

/-- The mutex of the queue and that of the stop flag. -/
inductive Global | mtx | mtxLoggerStop
  deriving DecidableEq

/-- The mutexes of `logger_mutex_map` are those of the keys. -/
abbrev Mutex := Locks.Mutex LoggerSink Global Field

/-- The ways through `prepare_log_message`. -/
inductive Course
  | disabled
  | filtered
  | internal
  | stack
  | template (datetime : Bool)

/-- The member functions that `Logger` calls on a sink. -/
inductive Member
  | setMsgTemplate
  | setDatetimePattern
  | setEnabled (b isOpen : Bool)
  | setMinLvl
  | prepareLogMessage (c : Course)

inductive Instr
  | acquire (m : Mutex)
  | release (m : Mutex)
  /-- A member call on the object stored under the key. -/
  | call (k : LoggerSink) (f : Member)
  /-- `make_shared` of a sink for the key. -/
  | make (k : LoggerSink) (enabled : Bool)
  | assign (k : LoggerSink) (o : ℕ)
  | erase (k : LoggerSink)
  /-- The destructor of the map at an entry. -/
  | drop (k : LoggerSink)
  | join
  | exit

/-- A `lock_guard` over a body. -/
def lock (m : Mutex) (body : List Instr) : List Instr := .acquire m :: body ++ [.release m]

/-! ### `sink.cpp`, `sink_console.cpp`, `sink_file.cpp` -/

namespace Sink

def getEnabled (o : ℕ) : List Instr := lock (.inner o .mtxEnabled) []

def fillConvPatterns (o : ℕ) (lk : Bool) : List Instr :=
  lock (.inner o .mtxConvPattern) (if lk then lock (.inner o .mtxMsgTemplate) [] else [])

def new (o : ℕ) : List Instr := fillConvPatterns o true

def setMsgTemplate (o : ℕ) : List Instr :=
  lock (.inner o .mtxMsgTemplate) (fillConvPatterns o false)

def setDatetimePattern (o : ℕ) : List Instr := lock (.inner o .mtxDatetimePattern) []

/-- The virtual `config_changed` is an argument. -/
def setEnabled (o : ℕ) (configChanged : List Instr) : List Instr :=
  lock (.inner o .mtxEnabled) configChanged

def setMinLvl (o : ℕ) : List Instr := lock (.inner o .mtxMinLvl) []

/-- The virtual `write_message` is an argument. The patterns are unlocked before it. -/
def prepareLogMessage (o : ℕ) (writeMessage : List Instr) : Course → List Instr
  | .disabled => getEnabled o
  | .filtered => getEnabled o ++ lock (.inner o .mtxMinLvl) []
  | .internal => getEnabled o ++ lock (.inner o .mtxMinLvl) []
  | .stack => getEnabled o ++ lock (.inner o .mtxMinLvl) [] ++ writeMessage
  | .template datetime =>
    getEnabled o ++ lock (.inner o .mtxMinLvl) [] ++ lock (.inner o .mtxMsgTemplate) [] ++
      lock (.inner o .mtxConvPattern)
        (if datetime then lock (.inner o .mtxDatetimePattern) [] else []) ++ writeMessage

end Sink

namespace SinkFile

def openFile (o : ℕ) (isOpen : Bool) : List Instr :=
  lock (.inner o .mtxFileStream) (if isOpen then [] else lock (.inner o .mtxLogFile) [])

def closeFile (o : ℕ) : List Instr := lock (.inner o .mtxFileStream) []

def writeMessage (o : ℕ) : List Instr := lock (.inner o .mtxFileStream) []

def configChanged (o : ℕ) (enabled isOpen : Bool) : List Instr :=
  if enabled && isOpen then closeFile o
  else if enabled && !isOpen then openFile o isOpen
  else []

/-- The stream of a new object is not open. -/
def new (o : ℕ) (enabled : Bool) : List Instr :=
  Sink.new o ++ Sink.getEnabled o ++ if enabled then openFile o false else []

end SinkFile

/-- The constructor of the sink of a key. -/
def construct (o : ℕ) (enabled : Bool) : LoggerSink → List Instr
  | .ealConsole => Sink.new o
  | .ealSyslog => Sink.new o
  | .ealFileSimple => SinkFile.new o enabled

def destruct (o : ℕ) : LoggerSink → List Instr
  | .ealFileSimple => SinkFile.closeFile o
  | _ => []

def writeMessage (o : ℕ) : LoggerSink → List Instr
  | .ealConsole => lock (.inner o .mtxConsole) []
  | .ealSyslog => []
  | .ealFileSimple => SinkFile.writeMessage o

def configChanged (o : ℕ) (enabled isOpen : Bool) : LoggerSink → List Instr
  | .ealFileSimple => SinkFile.configChanged o enabled isOpen
  | _ => []

def Member.body (k : LoggerSink) (o : ℕ) : Member → List Instr
  | .setMsgTemplate => Sink.setMsgTemplate o
  | .setDatetimePattern => Sink.setDatetimePattern o
  | .setEnabled b isOpen => Sink.setEnabled o (configChanged o b isOpen k)
  | .setMinLvl => Sink.setMinLvl o
  | .prepareLogMessage c => Sink.prepareLogMessage o (writeMessage o k) c

/-! ### `logqueue.cpp` -/

namespace LogQueue

def push : List Instr := lock (.global .mtx) []

/-- `wait` unlocks the mutex and takes it again, as often as it is woken up for nothing and
once more. -/
def pop (waits : ℕ) : List Instr :=
  lock (.global .mtx)
    (List.replicate waits [Instr.release (.global .mtx), .acquire (.global .mtx)]).flatten

def empty : List Instr := lock (.global .mtx) []

end LogQueue

/-! ### `ealogger.cpp` -/

/-- The entries that the loop finds, and the way through `prepare_log_message` for each. -/
def internalLogRoutine (visits : List (LoggerSink × Course)) : List Instr :=
  visits.flatMap fun v => lock (.key v.1) [.call v.1 (.prepareLogMessage v.2)]

def writeLog (async : Bool) (visits : List (LoggerSink × Course)) : List Instr :=
  if async then LogQueue.push else internalLogRoutine visits

/-- `init_console_sink`, `init_syslog_sink` and `init_file_sink`. -/
def initSink (k : LoggerSink) (enabled : Bool) : List Instr := lock (.key k) [.make k enabled]

/-- The setters. -/
def atSink (k : LoggerSink) (f : Member) : List Instr := lock (.key k) [.call k f]

def discardSink (k : LoggerSink) : List Instr := lock (.key k) [.erase k]

def isInitialized (k : LoggerSink) : List Instr := lock (.key k) []

def getLoggerThreadStop : List Instr := lock (.global .mtxLoggerStop) []

def setLoggerThreadStop : List Instr := lock (.global .mtxLoggerStop) []

/-- A public operation. -/
def operation (async : Bool) (visits : List (LoggerSink × Course)) (isOpen : Bool) :
    Op → List Instr
  | .writeLog .. => writeLog async visits
  | .initSyslogSink enabled .. => initSink .ealSyslog enabled
  | .initConsoleSink enabled .. => initSink .ealConsole enabled
  | .initFileSink enabled .. => initSink .ealFileSimple enabled
  | .setMsgTemplate k _ => atSink k .setMsgTemplate
  | .setDatetimePattern k _ => atSink k .setDatetimePattern
  | .setEnabled k b => atSink k (.setEnabled b isOpen)
  | .setMinLvl k _ => atSink k .setMinLvl
  | .discardSink k => discardSink k
  | .isInitialized k => isInitialized k
  | .queueEmpty => LogQueue.empty

/-- One turn of the loop of `thread_entry_point`. -/
def turn (stop : Bool) (waits : ℕ) (visits : List (LoggerSink × Course)) : List Instr :=
  getLoggerThreadStop ++ if stop then [.exit] else LogQueue.pop waits ++ internalLogRoutine visits

/-- The destructor, with the number of times it looks at the queue. -/
def destroy (async : Bool) (polls : ℕ) : List Instr :=
  (if async then
    (List.replicate polls LogQueue.empty).flatten ++ setLoggerThreadStop ++ writeLog async [] ++
      [.join]
  else []) ++ sinkKeys.map .drop

/-! ### The threads -/

inductive Thread (ι : Type)
  | client (i : ι)
  | worker
  | dtor
  deriving DecidableEq

/-- The object under each key, the number of the next object, the mutexes that each thread holds
and what it has still to do. -/
structure State (ι : Type) where
  map : LoggerSink → Option ℕ
  fresh : ℕ
  held : Thread ι → List Mutex
  todo : Thread ι → List Instr
  /-- There is no background thread any more, or there never was. -/
  exited : Bool
  closing : Bool

inductive Label (ι : Type)
  | call (i : ι) (o : Op) (visits : List (LoggerSink × Course)) (isOpen : Bool)
  | turn (stop : Bool) (waits : ℕ) (visits : List (LoggerSink × Course))
  | destroy (polls : ℕ)
  | step (t : Thread ι)

variable {ι : Type} [DecidableEq ι]

/-- The constructor of `Logger`. -/
def start (ι : Type) (async : Bool) : State ι :=
  ⟨fun _ => none, 0, fun _ => [], fun _ => [], !async, false⟩

namespace State

/-- What comes before the rest of the program. Without an entry `at` throws, and the loop of
`internal_log_routine` does not come by. -/
def expand (s : State ι) : Instr → List Instr
  | .call k f => match s.map k with
    | some o => f.body k o
    | none => []
  | .make k enabled => construct s.fresh enabled k ++ [.assign k s.fresh]
  -- the object that was there is destroyed
  | .assign k _ | .erase k | .drop k => match s.map k with
    | some o => destruct o k
    | none => []
  | _ => []

omit [DecidableEq ι] in
@[simp] lemma expand_assign (s : State ι) (k : LoggerSink) (o : ℕ) :
    s.expand (.assign k o) = s.expand (.erase k) := rfl

omit [DecidableEq ι] in
@[simp] lemma expand_drop (s : State ι) (k : LoggerSink) :
    s.expand (.drop k) = s.expand (.erase k) := rfl

def exec (t : Thread ι) (s : State ι) : Instr → State ι
  | .acquire m => { s with held := Function.update s.held t (m :: s.held t) }
  | .release m => { s with held := Function.update s.held t ((s.held t).erase m) }
  | .make _ _ => { s with fresh := s.fresh + 1 }
  | .assign k o => { s with map := Function.update s.map k (some o) }
  | .erase k | .drop k => { s with map := Function.update s.map k none }
  | .exit => { s with exited := true }
  | .call _ _ | .join => s

@[simp] lemma exec_closing (t : Thread ι) (s : State ι) (a : Instr) :
    (s.exec t a).closing = s.closing := by
  cases a <;> rfl

@[simp] lemma exec_exited (t : Thread ι) (s : State ι) (a : Instr) :
    (s.exec t a).exited = true ↔ s.exited = true ∨ a = .exit := by
  cases a <;> simp [exec]

/-- The mutex that a thread asks for. -/
def wants (s : State ι) (t : Thread ι) : Option Mutex :=
  match s.todo t with
  | .acquire m :: _ => some m
  | _ => none

omit [DecidableEq ι] in
lemma wants_some {s : State ι} {t : Thread ι} {m : Mutex} (h : s.wants t = some m) :
    ∃ rest, s.todo t = .acquire m :: rest := by
  unfold wants at h
  split at h
  · next m' rest htodo => exact ⟨rest, by rw [htodo, Option.some.inj h]⟩
  · cases h

/-- A mutex is given to a thread when no thread holds it, not even the thread itself; and `join`
waits for the background thread. -/
def Ready (s : State ι) : Instr → Prop
  | .acquire m => ∀ t, m ∉ s.held t
  | .join => s.exited = true
  | _ => True

def enabled (a : Label ι) (s : State ι) : Prop :=
  match a with
  | .call i _ _ _ => s.closing = false ∧ s.todo (.client i) = []
  | .turn _ _ _ => s.exited = false ∧ s.todo .worker = []
  | .destroy _ => s.closing = false ∧ ∀ i, s.todo (.client i) = []
  | .step t => ∃ a rest, s.todo t = a :: rest ∧ s.Ready a

def next (async : Bool) (a : Label ι) (s : State ι) : State ι :=
  match a with
  | .call i o visits isOpen =>
    { s with todo := Function.update s.todo (.client i) (operation async visits isOpen o) }
  | .turn stop waits visits =>
    { s with todo := Function.update s.todo .worker (Locking.turn stop waits visits) }
  | .destroy polls =>
    { s with todo := Function.update s.todo .dtor (Locking.destroy async polls), closing := true }
  | .step t => match s.todo t with
    | [] => s
    | a :: rest => { exec t s a with todo := Function.update s.todo t (s.expand a ++ rest) }

end State

/-- The client threads, the background thread of an asynchronous `Logger` and the destructor. -/
def threads (ι : Type) [DecidableEq ι] (async : Bool) : Lts (State ι) (Label ι) where
  enabled := State.enabled
  next := State.next async

end Ealogger.Locking
