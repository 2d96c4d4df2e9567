import Mathlib.Data.List.Basic
import Mathlib.Tactic.Common

/-!
Severities, sinks and log messages: `global.h` and `logmessage.h`.

A `std::string` is the list of its characters. A time point is kept as the `time_t` that
`get_timepoint` makes of it.
-/

namespace Ealogger

abbrev Str := List Char

/-- `constants::LOGGER_SINK`, in the order of its values. -/
inductive LoggerSink | ealConsole | ealSyslog | ealFileSimple
  deriving DecidableEq, Repr

/-- The keys of a full `logger_sink_map`, in the order in which a `std::map` is traversed. -/
def sinkKeys : List LoggerSink := [.ealConsole, .ealSyslog, .ealFileSimple]

@[simp] lemma mem_sinkKeys (k : LoggerSink) : k ∈ sinkKeys := by cases k <;> decide

lemma nodup_sinkKeys : sinkKeys.Nodup := by decide

/-- `constants::LOG_LEVEL`. -/
inductive LogLevel
  | ealDebug | ealInfo | ealWarning | ealError | ealFatal | ealStack | ealInternal
  deriving DecidableEq, Repr

/-- The value of the enumerator, which is what `<` on severities compares. -/
def LogLevel.value : LogLevel → ℕ
  | .ealDebug => 0
  | .ealInfo => 1
  | .ealWarning => 2
  | .ealError => 3
  | .ealFatal => 4
  | .ealStack => 5
  | .ealInternal => 6

/-- `LogMessage::LOGTYPE`. -/
inductive LogType | default | stack
  deriving DecidableEq, Repr

structure LogMessage where
  t : Int
  severity : LogLevel
  message : Str
  messageVec : List Str
  logType : LogType
  callFile : Str
  callFileLineNum : Int
  callFunc : Str
  deriving DecidableEq

/-- The message `Logger::write_log` builds at time `now`; `stack` is what
`utility::stack_trace` has collected, which only a stack message keeps. -/
def LogMessage.build (now : Int) (stack : List Str) (msg : Str) (lvl : LogLevel) (file : Str)
    (lnumber : Int) (func : Str) : LogMessage :=
  if lvl = .ealStack then
    ⟨now, lvl, [], stack, .stack, file, lnumber, func⟩
  else
    ⟨now, lvl, msg, [], .default, file, lnumber, func⟩

/-- Through `write_log` the type of a message is decided by its severity. -/
lemma LogMessage.build_logType (now : Int) (stack : List Str) (msg : Str) (lvl : LogLevel)
    (file : Str) (lnumber : Int) (func : Str) :
    (LogMessage.build now stack msg lvl file lnumber func).logType = .stack ↔ lvl = .ealStack := by
  unfold LogMessage.build
  split <;> simp_all

@[simp] lemma LogMessage.build_severity (now : Int) (stack : List Str) (msg : Str)
    (lvl : LogLevel) (file : Str) (lnumber : Int) (func : Str) :
    (LogMessage.build now stack msg lvl file lnumber func).severity = lvl := by
  unfold LogMessage.build
  split <;> rfl

end Ealogger
