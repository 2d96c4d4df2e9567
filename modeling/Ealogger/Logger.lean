import Ealogger.SinkFile

/-!
`ealogger.h` and `ealogger.cpp` without the background thread: a synchronous `Logger`.

The map of sinks is acted upon by the public operations. What can be observed of a run is
kept beside it: the disk, standard output, the calls of `syslog(3)`, and a trace of the
strings handed to `write_message` and of the answers given to the caller.
-/

namespace Ealogger

open Streams

/-- The object a `shared_ptr<Sink>` points to. -/
inductive AnySink
  | console (s : Sink)
  | syslog (s : Sink)
  | file (f : SinkFile)

structure World where
  disk : Disk
  stdout : List Str
  /-- Priority and text of the calls of `syslog(3)`. -/
  syslogCalls : List (ℕ × Str)

inductive Event
  | wrote (k : LoggerSink) (msg : Str)
  | initialized (k : LoggerSink) (b : Bool)
  | queueEmpty (b : Bool)
  deriving DecidableEq

namespace AnySink

/-- The `Sink` part of the object. -/
def base : AnySink → Sink
  | .console s => s
  | .syslog s => s
  | .file f => f.toSink

def mapBase (g : Sink → Sink) : AnySink → AnySink
  | .console s => .console (g s)
  | .syslog s => .syslog (g s)
  | .file f => .file { f with toSink := g f.toSink }

@[simp] lemma base_mapBase (g : Sink → Sink) (s : AnySink) : (s.mapBase g).base = g s.base := by
  cases s <;> rfl

/-- The virtual `write_message`. In `sink_syslog.cpp` the body is under `EALOGGER_SYSLOG`,
which `config.h` defines; that translation unit does not include `config.h`, so the body is
empty. -/
def writeMessage (dev : Device) (msg : Str) (s : AnySink) (w : World) : Call (AnySink × World) :=
  match s with
  | .console s => .ret (.console s, { w with stdout := w.stdout ++ [msg] })
  | .syslog s => .ret (.syslog s, w)
  | .file f => (f.writeMessage dev msg w.disk).map fun st => (.file st.1, { w with disk := st.2 })

def prepareLogMessage (env : Env) (dev : Device) (m : LogMessage) (s : AnySink) (w : World) :
    Call (AnySink × World) :=
  match s.base.prepareLogMessage env m with
  | some msg => s.writeMessage dev msg w
  | none => .ret (s, w)

/-- `set_enabled` with the virtual `config_changed` of the sink. -/
def setEnabled (b : Bool) (dev : Device) (s : AnySink) (w : World) : Call (AnySink × World) :=
  match s with
  | .console s => .ret (.console (s.setEnabled b), w)
  | .syslog s => .ret (.syslog (s.setEnabled b), w)
  | .file f => (f.setEnabled b dev w.disk).map fun st => (.file st.1, { w with disk := st.2 })

/-- The virtual destructor. -/
def destroy (dev : Device) (s : AnySink) (w : World) : Call World :=
  match s with
  | .file f => (f.destroy dev w.disk).map fun st => { w with disk := st.2 }
  | _ => .ret w

@[simp] lemma writeMessage_base (dev : Device) (msg : Str) (s : AnySink) (w : World) :
    (s.writeMessage dev msg w).state.1.base = s.base := by
  cases s <;> rfl

@[simp] lemma prepareLogMessage_base (env : Env) (dev : Device) (m : LogMessage) (s : AnySink)
    (w : World) : (s.prepareLogMessage env dev m w).state.1.base = s.base := by
  unfold prepareLogMessage
  split
  · exact writeMessage_base ..
  · rfl

@[simp] lemma setEnabled_base (b : Bool) (dev : Device) (s : AnySink) (w : World) :
    (s.setEnabled b dev w).state.1.base = s.base.setEnabled b := by
  cases s with
  | console s => rfl
  | syslog s => rfl
  | file f => exact SinkFile.setEnabled_toSink f dev w.disk b

/-- No sink lets an exception of a write through. -/
@[simp] lemma writeMessage_exit (dev : Device) (msg : Str) (s : AnySink) (w : World) :
    (s.writeMessage dev msg w).exit = .returned := by
  cases s with
  | console s => rfl
  | syslog s => rfl
  | file f => exact SinkFile.writeMessage_exit f dev w.disk msg

@[simp] lemma prepareLogMessage_exit (env : Env) (dev : Device) (m : LogMessage) (s : AnySink)
    (w : World) : (s.prepareLogMessage env dev m w).exit = .returned := by
  unfold prepareLogMessage
  split
  · exact writeMessage_exit ..
  · rfl

end AnySink

/-- A `Logger` and what has been observed of it. -/
structure Logger where
  loggerSinkMap : LoggerSink → Option AnySink
  world : World
  trace : List Event

/-- The public operations. A call of `write_log` comes with the environment it runs in, the
time it is made at and the stack it is made on. -/
inductive Op
  | writeLog (env : Env) (now : Int) (stack : List Str) (msg : Str) (lvl : LogLevel) (file : Str)
      (lnumber : Int) (func : Str)
  | initSyslogSink (enabled : Bool) (minLvl : LogLevel) (msgTemplate datetimePattern : Str)
  | initConsoleSink (enabled : Bool) (minLvl : LogLevel) (msgTemplate datetimePattern : Str)
  | initFileSink (enabled : Bool) (minLvl : LogLevel) (msgTemplate datetimePattern logfile : Str)
      (flushBuffer : Bool)
  | setMsgTemplate (sink : LoggerSink) (msgTemplate : Str)
  | setDatetimePattern (sink : LoggerSink) (datetimePattern : Str)
  | setEnabled (sink : LoggerSink) (enabled : Bool)
  | setMinLvl (sink : LoggerSink) (minLevel : LogLevel)
  | discardSink (sink : LoggerSink)
  | isInitialized (sink : LoggerSink)
  | queueEmpty

/-- The arguments of a call of `write_log`, and the time and the stack it is made at. -/
structure LogCall where
  now : Int
  stack : List Str
  msg : Str
  lvl : LogLevel
  file : Str
  lnumber : Int
  func : Str

def LogCall.message (c : LogCall) : LogMessage :=
  LogMessage.build c.now c.stack c.msg c.lvl c.file c.lnumber c.func

def LogCall.op (env : Env) (c : LogCall) : Op :=
  .writeLog env c.now c.stack c.msg c.lvl c.file c.lnumber c.func

/-- The overload without source position. -/
def LogCall.plain (now : Int) (stack : List Str) (msg : Str) (lvl : LogLevel) : LogCall :=
  ⟨now, stack, msg, lvl, [], 0, []⟩

namespace Logger

def put (L : Logger) (k : LoggerSink) (s : Option AnySink) (w : World) : Logger :=
  { L with loggerSinkMap := Function.update L.loggerSinkMap k s, world := w }

/-- The body of the loop of `internal_log_routine` for the entry of one key. -/
def dispatch (env : Env) (dev : Device) (m : LogMessage) (L : Logger) (k : LoggerSink) :
    Call Logger :=
  match L.loggerSinkMap k with
  | none => .ret L
  | some s => (s.prepareLogMessage env dev m L.world).map fun st =>
      { L.put k (some st.1) st.2 with
        trace := L.trace ++ ((s.base.prepareLogMessage env m).map (Event.wrote k)).toList }

def internalLogRoutine (env : Env) (dev : Device) (m : LogMessage) (L : Logger) : Call Logger :=
  sinkKeys.foldl (fun c k => c.andThen fun L => L.dispatch env dev m k) (.ret L)

/-- A member call through `logger_sink_map.at(sink)`; without an entry `at` throws
`out_of_range`, which is caught. -/
def atSink (L : Logger) (k : LoggerSink) (f : AnySink → World → Call (AnySink × World)) :
    Call Logger :=
  match L.loggerSinkMap k with
  | none => .ret L
  | some s => (f s L.world).map fun st => L.put k (some st.1) st.2

/-- The object that was in the map is destroyed when its last `shared_ptr` is gone. -/
def release (L : Logger) (old : Option AnySink) (dev : Device) : Call Logger :=
  match old with
  | none => .ret L
  | some s => (s.destroy dev L.world).map fun w => { L with world := w }

/-- `logger_sink_map[k] = make_shared<...>(...)` under `try`: the new object is made first. -/
def install (L : Logger) (k : LoggerSink) (c : Call (AnySink × World)) (dev : Device) :
    Call Logger :=
  Call.catchAll <| (c.map fun st => L.put k (some st.1) st.2).andThen fun L' =>
    L'.release (L.loggerSinkMap k) dev

/-- `logger_sink_map.erase(k)`. -/
def erase (L : Logger) (k : LoggerSink) (dev : Device) : Call Logger :=
  (L.put k none L.world).release (L.loggerSinkMap k) dev

/-- `discard_sink`: the same under `try`. -/
def discard (L : Logger) (k : LoggerSink) (dev : Device) : Call Logger :=
  (L.erase k dev).catchAll

def exec (o : Op × Device) (L : Logger) : Call Logger :=
  let dev := o.2
  match o.1 with
  | .writeLog env now stack msg lvl file lnumber func =>
    L.internalLogRoutine env dev (LogMessage.build now stack msg lvl file lnumber func)
  | .initSyslogSink enabled minLvl T p =>
    L.install .ealSyslog (.ret (.syslog (Sink.new T p enabled minLvl), L.world)) dev
  | .initConsoleSink enabled minLvl T p =>
    L.install .ealConsole (.ret (.console (Sink.new T p enabled minLvl), L.world)) dev
  | .initFileSink enabled minLvl T p logfile flushBuffer =>
    L.install .ealFileSimple
      ((SinkFile.new T p enabled minLvl logfile flushBuffer dev L.world.disk).map fun st =>
        (.file st.1, { L.world with disk := st.2 })) dev
  | .setMsgTemplate k T => L.atSink k fun s w => .ret (s.mapBase (·.setMsgTemplate T), w)
  | .setDatetimePattern k p => L.atSink k fun s w => .ret (s.mapBase (·.setDatetimePattern p), w)
  | .setEnabled k b => L.atSink k fun s w => s.setEnabled b dev w
  | .setMinLvl k lvl => L.atSink k fun s w => .ret (s.mapBase (·.setMinLvl lvl), w)
  | .discardSink k => L.discard k dev
  | .isInitialized k =>
    .ret { L with trace := L.trace ++ [.initialized k (L.loggerSinkMap k).isSome] }
  -- nothing is ever pushed without a background thread
  | .queueEmpty => .ret { L with trace := L.trace ++ [.queueEmpty true] }

/-- A synchronous `Logger` goes through the operations; one that throws leaves the state it
has reached. -/
def run (L : Logger) (ops : List (Op × Device)) : Logger :=
  ops.foldl (fun L o => (exec o L).state) L

/-- The destructor of a synchronous `Logger`: the map lets go of its sinks. -/
def destroy (L : Logger) (dev : Device) : Call Logger :=
  sinkKeys.foldl (fun c k => c.andThen fun L => L.erase k dev) (.ret L)

/-- A `Logger` without sinks on a given disk. -/
def new (d : Disk) : Logger := ⟨fun _ => none, ⟨d, [], []⟩, []⟩

/-- A `Logger` with a console sink that lets everything through. -/
def console : Logger :=
  ((new Disk.empty).exec (.initConsoleSink true .ealDebug "%m".toList [],
    Device.willing)).state

@[simp] lemma dispatch_exit (env : Env) (dev : Device) (m : LogMessage) (L : Logger)
    (k : LoggerSink) : (L.dispatch env dev m k).exit = .returned := by
  unfold dispatch
  split
  · rfl
  · exact AnySink.prepareLogMessage_exit ..

/-- Dispatching to one key more: the first one first. -/
lemma foldl_dispatch_cons (env : Env) (dev : Device) (m : LogMessage) (L : Logger)
    (k : LoggerSink) (ks : List LoggerSink) :
    (k :: ks).foldl (fun (c : Call Logger) k => c.andThen fun L => L.dispatch env dev m k)
        (Call.ret L) =
      ks.foldl (fun (c : Call Logger) k => c.andThen fun L => L.dispatch env dev m k)
        (Call.ret (L.dispatch env dev m k).state) := by
  rw [List.foldl_cons, Call.ret_andThen, ← Call.eq_ret (dispatch_exit env dev m L k)]

/-- A synchronous `write_log` returns. -/
lemma internalLogRoutine_exit (env : Env) (dev : Device) (m : LogMessage) (L : Logger) :
    (L.internalLogRoutine env dev m).exit = .returned := by
  unfold internalLogRoutine
  generalize sinkKeys = ks
  induction ks generalizing L with
  | nil => rfl
  | cons k ks ih => rw [foldl_dispatch_cons]; exact ih _

lemma atSink_none {L : Logger} {k : LoggerSink} (hs : L.loggerSinkMap k = none)
    (f : AnySink → World → Call (AnySink × World)) : L.atSink k f = .ret L := by
  simp [atSink, hs]

lemma atSink_some {L : Logger} {k : LoggerSink} {s : AnySink} (hs : L.loggerSinkMap k = some s)
    (f : AnySink → World → Call (AnySink × World)) :
    L.atSink k f = (f s L.world).map fun st => L.put k (some st.1) st.2 := by
  simp [atSink, hs]

@[simp] lemma release_map (L : Logger) (old : Option AnySink) (dev : Device) :
    (L.release old dev).state.loggerSinkMap = L.loggerSinkMap := by
  cases old <;> rfl

@[simp] lemma release_trace (L : Logger) (old : Option AnySink) (dev : Device) :
    (L.release old dev).state.trace = L.trace := by
  cases old <;> rfl

@[simp] lemma run_cons (L : Logger) (o : Op × Device) (os : List (Op × Device)) :
    L.run (o :: os) = (exec o L).state.run os := rfl

end Logger

end Ealogger
