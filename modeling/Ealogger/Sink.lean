import Ealogger.ConversionPattern
import Ealogger.Utility

/-!
`sink.h` and `sink.cpp`: the part of a sink that does not depend on its target.

A sink keeps the list of the conversion patterns that its message template contains, filled
anew whenever the template is set. A message passes a filter and is then rendered by one
replacement pass over the template for each pattern of that list. The mutexes of the members
play no part here; the steps between them are taken apart in `Snapshot`.
-/

namespace Ealogger

structure Sink where
  msgTemplate : Str
  datetimePattern : Str
  enabled : Bool
  minLevel : LogLevel
  vecConvPatterns : List ConversionPattern

/-- `loglevel_lookup`, which the constructor fills for every severity. -/
def loglevelLookup : LogLevel → Str
  | .ealDebug => "DEBUG".toList
  | .ealInfo => "INFO".toList
  | .ealWarning => "WARNING".toList
  | .ealError => "ERROR".toList
  | .ealFatal => "FATAL".toList
  | .ealStack => "Stacktrace".toList
  | .ealInternal => "INTERNAL".toList

/-- The patterns `fill_conv_patterns` looks for, one `if` after the other. -/
def patternTable : List ConversionPattern :=
  [⟨['%', 'd'], .dt⟩, ⟨['%', 'f'], .file⟩, ⟨['%', 'F'], .fileAbsolute⟩, ⟨['%', 'l'], .line⟩,
    ⟨['%', 'u'], .func⟩, ⟨['%', 'h'], .host⟩, ⟨['%', 't'], .threadid⟩, ⟨['%', 'm'], .msg⟩,
    ⟨['%', 's'], .lvl⟩]

/-- The patterns found in a template, in the order of the table. -/
def convPatterns (msgp : Str) : List ConversionPattern :=
  patternTable.filter fun cp => (Text.find msgp cp.convPattern 0).isSome

namespace Sink

def fillConvPatterns (s : Sink) : Sink := { s with vecConvPatterns := convPatterns s.msgTemplate }

/-- The constructor. -/
def new (msgTemplate datetimePattern : Str) (enabled : Bool) (minLvl : LogLevel) : Sink :=
  fillConvPatterns ⟨msgTemplate, datetimePattern, enabled, minLvl, []⟩

def setMsgTemplate (s : Sink) (msgTemplate : Str) : Sink :=
  fillConvPatterns { s with msgTemplate := msgTemplate }

def setDatetimePattern (s : Sink) (datetimePattern : Str) : Sink :=
  { s with datetimePattern := datetimePattern }

/-- Without `config_changed`, which the derived sinks implement. -/
def setEnabled (s : Sink) (enabled : Bool) : Sink := { s with enabled := enabled }

def setMinLvl (s : Sink) (minLvl : LogLevel) : Sink := { s with minLevel := minLvl }

/-- The value the `switch` of `prepare_log_message` inserts for a pattern; `none` is its
default branch, which a thread id falls into. -/
def patternValue (env : Env) (s : Sink) (m : LogMessage) : PatternType → Option Str
  | .dt => some (formatTimeToString env m.t s.datetimePattern)
  | .file => some (getFileName m.callFile)
  | .fileAbsolute => some m.callFile
  | .line => some (intToString m.callFileLineNum)
  | .func => some m.callFunc
  | .host => some (getHostname env)
  | .msg => some m.message
  | .lvl => some (loglevelLookup m.severity)
  | .threadid => none

/-- One turn of the loop over `vec_conv_patterns`. -/
def applyPattern (env : Env) (s : Sink) (m : LogMessage) (msg : Str) (cp : ConversionPattern) :
    Str :=
  match patternValue env s m cp.ptype with
  | some v => replaceConversionPattern cp msg v
  | none => msg

/-- The text of a stack message. -/
def stackText (m : LogMessage) : Str :=
  "Stacktrace \n".toList ++ m.messageVec.flatMap (· ++ ['\n'])

/-- The text of any other message. -/
def patternText (env : Env) (s : Sink) (m : LogMessage) : Str :=
  s.vecConvPatterns.foldl (applyPattern env s m) s.msgTemplate

/-- What is handed to `write_message`, if the message gets that far. `sink.cpp` does not
include `config.h`, so `EALOGGER_PRINT_INTERNAL` is undefined in it and internal messages
are dropped. -/
def prepareLogMessage (env : Env) (s : Sink) (m : LogMessage) : Option Str :=
  if s.enabled = false then none
  else if m.severity.value < s.minLevel.value ∧ m.logType = .default then none
  else if m.severity = .ealInternal then none
  else if m.logType = .stack then some (stackText m)
  else some (patternText env s m)

/-- The filter in front of the rendering. -/
def accepts (s : Sink) (m : LogMessage) : Bool :=
  s.enabled && !(decide (m.severity.value < s.minLevel.value) && m.logType == .default)
    && m.severity != .ealInternal

/-- What is rendered, accepted or not. -/
def text (env : Env) (s : Sink) (m : LogMessage) : Str :=
  if m.logType = .stack then stackText m else patternText env s m

lemma prepareLogMessage_eq (env : Env) (s : Sink) (m : LogMessage) :
    prepareLogMessage env s m = if s.accepts m then some (text env s m) else none := by
  unfold prepareLogMessage accepts text
  cases s.enabled <;> by_cases hl : m.severity.value < s.minLevel.value <;>
    by_cases hi : m.severity = .ealInternal <;> cases m.logType <;> simp [hl, hi]

/-- Internal messages never reach a target. -/
lemma prepareLogMessage_internal (env : Env) (s : Sink) {m : LogMessage}
    (h : m.severity = .ealInternal) : prepareLogMessage env s m = none := by
  rw [prepareLogMessage_eq]
  simp [accepts, h]

/-! ### The cached pattern list -/

/-- The pattern list is the one of the current template. -/
def Fresh (s : Sink) : Prop := s.vecConvPatterns = convPatterns s.msgTemplate

lemma new_fresh (msgTemplate datetimePattern : Str) (enabled : Bool) (minLvl : LogLevel) :
    (new msgTemplate datetimePattern enabled minLvl).Fresh := rfl

lemma setMsgTemplate_fresh (s : Sink) (msgTemplate : Str) :
    (s.setMsgTemplate msgTemplate).Fresh := rfl

lemma setDatetimePattern_fresh {s : Sink} (h : s.Fresh) (p : Str) :
    (s.setDatetimePattern p).Fresh := h

lemma setEnabled_fresh {s : Sink} (h : s.Fresh) (b : Bool) : (s.setEnabled b).Fresh := h

lemma setMinLvl_fresh {s : Sink} (h : s.Fresh) (lvl : LogLevel) : (s.setMinLvl lvl).Fresh := h

end Sink

end Ealogger
