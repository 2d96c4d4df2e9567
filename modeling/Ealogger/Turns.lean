import Ealogger.Lib.Sharded
import Ealogger.Slice

/-!
What a thread does while it holds the mutex of a sink, step by step.

The turn of a sink in `internal_log_routine` and the other operations lock the mutex of one key
of the map, and go from one inner mutex of the object to the next: the flag, the level, the
template, the patterns, the stream. A step is what happens under one of them, one turn of the loop
over the patterns, or one change of the map. An object that is not in the map any more, or not
yet, is known to its thread only.
-/

namespace Ealogger.Turns

open Streams Slice FileFailure

/-- What is done under the mutex of a key. -/
inductive Turn
  | prepareLogMessage (k : LoggerSink) (m : LogMessage) (dev : Device)
  | setMsgTemplate (k : LoggerSink) (msgTemplate : Str)
  | setDatetimePattern (k : LoggerSink) (datetimePattern : Str)
  | setEnabled (k : LoggerSink) (enabled : Bool) (dev : Device)
  | setMinLvl (k : LoggerSink) (minLevel : LogLevel)
  | initSyslogSink (enabled : Bool) (minLvl : LogLevel) (msgTemplate datetimePattern : Str)
      (dev : Device)
  | initConsoleSink (enabled : Bool) (minLvl : LogLevel) (msgTemplate datetimePattern : Str)
      (dev : Device)
  | initFileSink (enabled : Bool) (minLvl : LogLevel) (msgTemplate datetimePattern logfile : Str)
      (flushBuffer : Bool) (dev : Device)
  | discardSink (k : LoggerSink) (dev : Device)
  | isInitialized (k : LoggerSink)

/-- Where a turn stands. -/
inductive Micro
  | getEnabled (m : LogMessage) (dev : Device)
  | compareLevel (m : LogMessage) (dev : Device)
  | copyTemplate (m : LogMessage) (dev : Device)
  | lockPatterns (m : LogMessage) (dev : Device) (msg : Str)
  | replacePattern (m : LogMessage) (dev : Device) (msg : Str) (rest : List ConversionPattern)
  | writeMessage (dev : Device) (msg : Str)
  | storeTemplate (msgTemplate : Str)
  | refillPatterns
  | storeDatetimePattern (datetimePattern : Str)
  | storeEnabled (enabled : Bool) (dev : Device)
  | configChanged (dev : Device)
  | closeFile (dev : Device)
  | openFile (dev : Device)
  | storeMinLevel (minLevel : LogLevel)
  /-- The object has been made, but for its file. -/
  | construct (s : AnySink) (dev : Device)
  | assign (s : AnySink) (dev : Device)
  /-- The last `shared_ptr` to an object goes. -/
  | release (old : Option AnySink) (dev : Device)
  | erase (dev : Device)
  | find

def Turn.key : Turn → LoggerSink
  | .prepareLogMessage k _ _ => k
  | .setMsgTemplate k _ => k
  | .setDatetimePattern k _ => k
  | .setEnabled k _ _ => k
  | .setMinLvl k _ => k
  | .initSyslogSink .. => .ealSyslog
  | .initConsoleSink .. => .ealConsole
  | .initFileSink .. => .ealFileSimple
  | .discardSink k _ => k
  | .isInitialized k => k

def Turn.enter : Turn → Micro
  | .prepareLogMessage _ m dev => .getEnabled m dev
  | .setMsgTemplate _ T => .storeTemplate T
  | .setDatetimePattern _ p => .storeDatetimePattern p
  | .setEnabled _ b dev => .storeEnabled b dev
  | .setMinLvl _ lvl => .storeMinLevel lvl
  | .initSyslogSink b lvl T p dev => .construct (.syslog (Sink.new T p b lvl)) dev
  | .initConsoleSink b lvl T p dev => .construct (.console (Sink.new T p b lvl)) dev
  | .initFileSink b lvl T p path fl dev =>
    .construct (.file ⟨Sink.new T p b lvl, path, fl, .closed⟩) dev
  | .discardSink _ dev => .erase dev
  | .isInitialized _ => .find

/-- The operation of the `Logger` that is this turn, for one that is no message. -/
def Op.turn (dev : Device) : Op → Option Turn
  | .writeLog .. => none
  | .initSyslogSink b lvl T p => some (.initSyslogSink b lvl T p dev)
  | .initConsoleSink b lvl T p => some (.initConsoleSink b lvl T p dev)
  | .initFileSink b lvl T p path fl => some (.initFileSink b lvl T p path fl dev)
  | .setMsgTemplate k T => some (.setMsgTemplate k T)
  | .setDatetimePattern k p => some (.setDatetimePattern k p)
  | .setEnabled k b => some (.setEnabled k b dev)
  | .setMinLvl k lvl => some (.setMinLvl k lvl)
  | .discardSink k => some (.discardSink k dev)
  | .isInitialized k => some (.isInitialized k)
  | .queueEmpty => none

/-- The turn at once, as the operations of `Logger` have it. -/
def Turn.exec (env : Env) (t : Turn) (L : Logger) : Logger :=
  match t with
  | .prepareLogMessage k m dev => (L.dispatch env dev m k).state
  | .setMsgTemplate k T => (L.exec (.setMsgTemplate k T, Device.willing)).state
  | .setDatetimePattern k p => (L.exec (.setDatetimePattern k p, Device.willing)).state
  | .setEnabled k b dev => (L.exec (.setEnabled k b, dev)).state
  | .setMinLvl k lvl => (L.exec (.setMinLvl k lvl, Device.willing)).state
  | .initSyslogSink b lvl T p dev => (L.exec (.initSyslogSink b lvl T p, dev)).state
  | .initConsoleSink b lvl T p dev => (L.exec (.initConsoleSink b lvl T p, dev)).state
  | .initFileSink b lvl T p path fl dev => (L.exec (.initFileSink b lvl T p path fl, dev)).state
  | .discardSink k dev => (L.exec (.discardSink k, dev)).state
  | .isInitialized k => (L.exec (.isInitialized k, Device.willing)).state

/-! ### The steps -/

/-- A call on the file of a file sink. -/
def onFile (f : SinkFile → Disk → Call (SinkFile × Disk)) (s : AnySink) (w : World) :
    Call (AnySink × World) :=
  match s with
  | .file g => (f g w.disk).map fun st => (.file st.1, { w with disk := st.2 })
  | s => .ret (s, w)

/-- The file that a constructor opens. -/
def openNew (dev : Device) (f : SinkFile) (d : Disk) : Call (SinkFile × Disk) :=
  if f.enabled then f.openFile dev d else .ret (f, d)

/-- A thread looks at the object of its key. -/
def look (k : LoggerSink) (L : Logger) (f : AnySink → Option Micro) : Logger × Option Micro :=
  (L, (L.loggerSinkMap k).bind f)

/-- It changes a member of the object. -/
def modify (k : LoggerSink) (g : Sink → Sink) (L : Logger) : Logger :=
  (L.atSink k fun s w => .ret (s.mapBase g, w)).state

/-- It has a message written if there is one. -/
def written (k : LoggerSink) (dev : Device) (f : Sink → Option Str) (L : Logger) : Logger :=
  match L.loggerSinkMap k with
  | none => L
  | some s => match f s.base with
    | none => L
    | some msg => wrote k (fun s w => s.writeMessage dev msg w) (some msg) s L

def step (env : Env) (k : LoggerSink) (c : Micro) (L : Logger) : Logger × Option Micro :=
  match c with
  | .getEnabled m dev =>
    look k L fun s => if s.base.enabled then some (.compareLevel m dev) else none
  | .compareLevel m dev => look k L fun s =>
    if m.severity.value < s.base.minLevel.value ∧ m.logType = .default then none
    else if m.severity = .ealInternal then none
    else if m.logType = .stack then some (.writeMessage dev (Sink.stackText m))
    else some (.copyTemplate m dev)
  | .copyTemplate m dev => look k L fun s => some (.lockPatterns m dev s.base.msgTemplate)
  | .lockPatterns m dev msg =>
    look k L fun s => some (.replacePattern m dev msg s.base.vecConvPatterns)
  | .replacePattern m dev msg (cp :: rest) =>
    look k L fun s => some (.replacePattern m dev (s.base.applyPattern env m msg cp) rest)
  | .replacePattern _ dev msg [] => (L, some (.writeMessage dev msg))
  | .writeMessage dev msg => (written k dev (fun _ => some msg) L, none)
  | .storeTemplate T => (modify k (fun s => { s with msgTemplate := T }) L, some .refillPatterns)
  | .refillPatterns => (modify k Sink.fillConvPatterns L, none)
  | .storeDatetimePattern p => (modify k (·.setDatetimePattern p) L, none)
  | .storeEnabled b dev => (modify k (·.setEnabled b) L, some (.configChanged dev))
  -- the stream is looked at without its mutex
  | .configChanged dev => look k L fun
    | .file f =>
      if f.enabled && f.fileStream.isOpen then some (.closeFile dev)
      else if f.enabled && !f.fileStream.isOpen then some (.openFile dev)
      else none
    | _ => none
  | .closeFile dev => ((L.atSink k (onFile fun f d => f.closeFile dev d)).state, none)
  | .openFile dev => ((L.atSink k (onFile fun f d => f.openFile dev d)).state, none)
  | .storeMinLevel lvl => (modify k (·.setMinLvl lvl) L, none)
  | .construct s dev =>
    let c := onFile (openNew dev) s L.world
    ({ L with world := c.state.2 }, some (.assign c.state.1 dev))
  | .assign s dev => (L.put k (some s) L.world, some (.release (L.loggerSinkMap k) dev))
  | .release old dev => ((L.release old dev).state, none)
  | .erase dev => (L.put k none L.world, some (.release (L.loggerSinkMap k) dev))
  | .find => ({ L with trace := L.trace ++ [.initialized k (L.loggerSinkMap k).isSome] }, none)

def machine (env : Env) : Sharded.Machine LoggerSink Logger Turn Micro :=
  ⟨Turn.key, Turn.enter, step env⟩

/-- What a message under way is rendered to in the configuration of this moment. -/
def rendering (env : Env) (c : Micro) (s : Sink) : Option Str :=
  match c with
  | .getEnabled m _ => s.prepareLogMessage env m
  | .compareLevel m _ =>
    if m.severity.value < s.minLevel.value ∧ m.logType = .default then none
    else if m.severity = .ealInternal then none
    else some (s.text env m)
  | .copyTemplate m _ => some (s.patternText env m)
  | .lockPatterns m _ msg => some (s.vecConvPatterns.foldl (s.applyPattern env m) msg)
  | .replacePattern m _ msg rest => some (rest.foldl (s.applyPattern env m) msg)
  | .writeMessage _ msg => some msg
  | _ => none

/-- The rest of a turn, at once. -/
def resume (env : Env) (k : LoggerSink) (c : Micro) (L : Logger) : Logger :=
  match c with
  | .getEnabled _ dev => written k dev (rendering env c) L
  | .compareLevel _ dev => written k dev (rendering env c) L
  | .copyTemplate _ dev => written k dev (rendering env c) L
  | .lockPatterns _ dev _ => written k dev (rendering env c) L
  | .replacePattern _ dev _ _ => written k dev (rendering env c) L
  | .writeMessage dev _ => written k dev (rendering env c) L
  | .storeTemplate T => modify k (·.setMsgTemplate T) L
  | .refillPatterns => modify k Sink.fillConvPatterns L
  | .storeDatetimePattern p => modify k (·.setDatetimePattern p) L
  | .storeEnabled b dev => (L.atSink k fun s w => s.setEnabled b dev w).state
  | .configChanged dev => (L.atSink k (onFile fun f d => f.configChanged dev d)).state
  | .closeFile dev => (L.atSink k (onFile fun f d => f.closeFile dev d)).state
  | .openFile dev => (L.atSink k (onFile fun f d => f.openFile dev d)).state
  | .storeMinLevel lvl => modify k (·.setMinLvl lvl) L
  | .construct s dev => (L.install k (onFile (openNew dev) s L.world) dev).state
  | .assign s dev => (L.install k (.ret (s, L.world)) dev).state
  | .release old dev => (L.release old dev).state
  | .erase dev => (L.discard k dev).state
  | .find => { L with trace := L.trace ++ [.initialized k (L.loggerSinkMap k).isSome] }

/-- The objects that a thread has in its hands are of the kind of the key. -/
def fits (k : LoggerSink) : Micro → Prop
  | .construct s _ => keyOf s = k ∧ isOpen s = false
  | .assign s _ => keyOf s = k ∧ SinkMasked s
  | .release old _ => ∀ s, old = some s → keyOf s = k
  | _ => True

/-- There is no such object, and no entry is to come or to go. -/
def Plain : Micro → Prop
  | .construct _ _ => False
  | .assign _ _ => False
  | .release _ _ => False
  | .erase _ => False
  | _ => True

variable {env : Env} {L : Logger} {k j : LoggerSink} {dev : Device}

/-! ### The steps of a turn and the turn at once -/

lemma put_put (L : Logger) (k : LoggerSink) (s s' : Option AnySink) (w w' : World) :
    (L.put k s w).put k s' w' = L.put k s' w' := by
  simp [Logger.put]

lemma put_map_self (L : Logger) (k : LoggerSink) (s : Option AnySink) (w : World) :
    (L.put k s w).loggerSinkMap k = s := by
  simp [Logger.put]

/-- A change of a member, and then a call. -/
lemma atSink_modify (g : Sink → Sink) (f : AnySink → World → Call (AnySink × World)) :
    ((modify k g L).atSink k f).state = (L.atSink k fun s w => f (s.mapBase g) w).state := by
  cases hs : L.loggerSinkMap k with
  | none => simp [modify, Logger.atSink_none hs]
  | some s =>
    have hmodify : modify k g L = L.put k (some (s.mapBase g)) L.world := by
      rw [modify, Logger.atSink_some hs]
      rfl
    rw [hmodify, Logger.atSink_some (put_map_self L k _ _), Logger.atSink_some hs, Call.map_state,
      Call.map_state, put_put]
    rfl

lemma written_none {f : Sink → Option Str}
    (h : ∀ s, L.loggerSinkMap k = some s → f s.base = none) : written k dev f L = L := by
  unfold written
  cases hs : L.loggerSinkMap k with
  | none => rfl
  | some s => simp only [h s hs]

lemma written_congr {f g : Sink → Option Str}
    (h : ∀ s, L.loggerSinkMap k = some s → f s.base = g s.base) :
    written k dev f L = written k dev g L := by
  unfold written
  cases hs : L.loggerSinkMap k with
  | none => rfl
  | some s => simp only [h s hs]

lemma dispatch_eq_written (m : LogMessage) :
    (L.dispatch env dev m k).state = written k dev (fun s => s.prepareLogMessage env m) L := by
  unfold written
  cases hs : L.loggerSinkMap k with
  | none => simp [Logger.dispatch, hs]
  | some s =>
    rw [dispatch_some hs]
    cases hm : s.base.prepareLogMessage env m with
    | none =>
      have hsame : L.put k (some s) L.world = L := by
        simp only [Logger.put, ← hs, Function.update_eq_self]
      simp [wrote, AnySink.prepareLogMessage, hm, hsame]
    | some msg => simp [wrote, AnySink.prepareLogMessage, hm]

/-- A look at the object, after which the message is still written as it would have been. -/
lemma rest_look {f : AnySink → Option Micro} {g : Sink → Option Str}
    (h : ∀ s, L.loggerSinkMap k = some s → f s = none ∧ g s.base = none ∨
      ∃ c, f s = some c ∧ resume env k c L = written k dev (rendering env c) L ∧
        rendering env c s.base = g s.base) :
    Sharded.rest (resume env) k (look k L f) = written k dev g L := by
  cases hs : L.loggerSinkMap k with
  | none =>
    rw [written_none (by simp [hs])]
    simp [Sharded.rest, look, hs]
  | some s =>
    rcases h s hs with ⟨hf, hg⟩ | ⟨c, hf, hresume, hg⟩
    · rw [written_none (by simpa [hs] using hg)]
      simp [Sharded.rest, look, hs, hf]
    · have hrest : Sharded.rest (resume env) k (look k L f) = resume env k c L := by
        simp [Sharded.rest, look, hs, hf]
      rw [hrest, hresume]
      exact written_congr fun s' hs' => by
        obtain rfl : s = s' := Option.some.inj (hs.symm.trans hs')
        exact hg

/-- `config_changed`, once `enabled` has been set. -/
lemma setEnabled_eq (b : Bool) (dev : Device) (s : AnySink) (w : World) :
    s.setEnabled b dev w =
      onFile (fun f d => f.configChanged dev d) (s.mapBase (·.setEnabled b)) w := by
  cases s <;> rfl

lemma rest_configChanged :
    Sharded.rest (resume env) k (step env k (.configChanged dev) L) =
      (L.atSink k (onFile fun f d => f.configChanged dev d)).state := by
  cases hs : L.loggerSinkMap k with
  | none => simp [Sharded.rest, step, look, hs, Logger.atSink_none hs]
  | some s =>
    have hkeep : L.put k (some s) L.world = L := by
      simp only [Logger.put, ← hs, Function.update_eq_self]
    rw [Logger.atSink_some hs]
    cases s with
    | file f =>
      cases hen : f.enabled <;> cases hopen : f.fileStream.isOpen <;>
        simp [Sharded.rest, step, look, hs, hen, hopen, resume, Logger.atSink_some hs, onFile,
          SinkFile.configChanged, hkeep]
    | _ => simp [Sharded.rest, step, look, hs, onFile, hkeep]

lemma openNew_exit (dev : Device) (f : SinkFile) (d : Disk) :
    (openNew dev f d).exit = .returned := by
  unfold openNew
  split
  · exact SinkFile.openFile_exit f dev d
  · rfl

/-- A constructor lets no exception through. -/
lemma onFile_openNew_exit (s : AnySink) (dev : Device) (w : World) :
    (onFile (openNew dev) s w).exit = .returned := by
  cases s with
  | file f => exact openNew_exit dev f w.disk
  | _ => rfl

/-- The rest of a turn is the same after a step. -/
lemma rest_step (env : Env) (k : LoggerSink) (c : Micro) (L : Logger) :
    Sharded.rest (resume env) k (step env k c L) = resume env k c L := by
  cases c with
  | getEnabled m dev =>
    refine rest_look fun s _ => ?_
    cases hen : s.base.enabled with
    | false => exact .inl ⟨by simp, by simp [rendering, Sink.prepareLogMessage, hen]⟩
    | true =>
      refine .inr ⟨.compareLevel m dev, by simp, rfl, ?_⟩
      simp only [rendering, Sink.prepareLogMessage, Sink.text, hen, Bool.true_eq_false, if_false]
      split_ifs <;> rfl
  | compareLevel m dev =>
    refine rest_look fun s _ => ?_
    simp only [rendering]
    split_ifs with hlevel hinternal hstack
    · exact .inl ⟨rfl, rfl⟩
    · exact .inl ⟨rfl, rfl⟩
    · exact .inr ⟨_, rfl, rfl, by simp [Sink.text, hstack]⟩
    · exact .inr ⟨_, rfl, rfl, by simp [Sink.text, hstack]⟩
  | copyTemplate m dev =>
    simp only [step, resume]
    refine rest_look fun s _ => ?_
    exact .inr ⟨_, rfl, rfl, rfl⟩
  | lockPatterns m dev msg =>
    simp only [step, resume]
    refine rest_look fun s _ => ?_
    exact .inr ⟨_, rfl, rfl, rfl⟩
  | replacePattern m dev msg rest =>
    cases rest with
    | nil => rfl
    | cons cp rest =>
      simp only [step, resume]
      refine rest_look fun s _ => ?_
      exact .inr ⟨_, rfl, rfl, rfl⟩
  | storeTemplate T =>
    refine (atSink_modify (k := k) (L := L) _ _).trans ?_
    simp only [resume, modify, Sink.setMsgTemplate]
    congr 2
    funext s w
    cases s <;> rfl
  | storeEnabled b dev =>
    refine (atSink_modify (k := k) (L := L) _ _).trans ?_
    simp only [resume, setEnabled_eq]
  | configChanged dev => exact rest_configChanged
  | construct s dev =>
    have hret := onFile_openNew_exit s dev L.world
    simp only [step, resume, Sharded.rest, Logger.install, Call.catchAll_state]
    rw [Call.eq_ret hret]
    rfl
  | assign s dev =>
    simp only [step, resume, Sharded.rest, Logger.install, Call.catchAll_state]
    rfl
  | erase dev => simp [step, resume, Sharded.rest, Logger.discard, Logger.erase]
  | _ => rfl

/-! ### What a turn changes, and what it depends on -/

lemma onFile_key (f : SinkFile → Disk → Call (SinkFile × Disk)) (s : AnySink) (w : World) :
    keyOf (onFile f s w).state.1 = keyOf s := by
  cases s <;> rfl

lemma onFile_local (f : SinkFile → Disk → Call (SinkFile × Disk)) : Local k (onFile f) := by
  rintro (s | s | g) w rfl <;> rfl

lemma onFile_apart (f : SinkFile → Disk → Call (SinkFile × Disk)) : Apart k (onFile f) := by
  intro s w hs
  rcases s with s | s | g <;> cases k <;> first | rfl | exact absurd rfl hs

lemma slice_written_self (h : Good L) (dev : Device) (f : Sink → Option Str) :
    slice k (written k dev f L) = written k dev f (slice k L) := by
  unfold written
  rw [slice_map_self]
  cases hs : L.loggerSinkMap k with
  | none => rfl
  | some s =>
    cases hf : f s.base with
    | none => simp only [hf]
    | some msg =>
      simp only [hf]
      exact slice_wrote_self h (writeMessage_local dev msg) _ hs

lemma slice_written_ne (h : Good L) (hj : j ≠ k) (dev : Device) (f : Sink → Option Str) :
    slice j (written k dev f L) = slice j L := by
  unfold written
  cases hs : L.loggerSinkMap k with
  | none => rfl
  | some s =>
    cases hf : f s.base with
    | none => simp only [hf]
    | some msg =>
      simp only [hf]
      exact slice_wrote_ne h (Ne.symm hj) (writeMessage_apart dev msg) _ hs

/-- The rest of a turn does to the slice what it does to the `Logger`. -/
lemma slice_resume (env : Env) {c : Micro} (h : Good L) (hc : fits k c) :
    slice k (resume env k c L) = resume env k c (slice k L) := by
  have hatSink : ∀ f, Local k f →
      slice k (L.atSink k f).state = ((slice k L).atSink k f).state :=
    fun f hf => congrArg Call.state (slice_atSink_self h hf)
  cases c with
  | getEnabled m dev => exact slice_written_self h dev _
  | compareLevel m dev => exact slice_written_self h dev _
  | copyTemplate m dev => exact slice_written_self h dev _
  | lockPatterns m dev msg => exact slice_written_self h dev _
  | replacePattern m dev msg rest => exact slice_written_self h dev _
  | writeMessage dev msg => exact slice_written_self h dev _
  | storeTemplate T => exact hatSink _ (mapBase_local _)
  | refillPatterns => exact hatSink _ (mapBase_local _)
  | storeDatetimePattern p => exact hatSink _ (mapBase_local _)
  | storeEnabled b dev => exact hatSink _ (setEnabled_local b dev)
  | configChanged dev => exact hatSink _ (onFile_local _)
  | closeFile dev => exact hatSink _ (onFile_local _)
  | openFile dev => exact hatSink _ (onFile_local _)
  | storeMinLevel lvl => exact hatSink _ (mapBase_local _)
  | construct s dev =>
    have hworld : (slice k L).world = worldOf k L.world := rfl
    simp only [resume]
    rw [hworld, onFile_local (openNew dev) s L.world hc.1]
    exact congrArg Call.state (slice_install_self h _ dev)
  | assign s dev => exact congrArg Call.state (slice_install_self h _ dev)
  | release old dev => exact congrArg Call.state (slice_release_self hc dev L)
  | erase dev => exact congrArg Call.state (slice_discard_self h dev)
  | find => simp [resume, slice, ofKey]

/-- A step leaves the slices of the other keys alone. -/
lemma slice_step_ne (env : Env) {c : Micro} (h : Good L) (hc : fits k c) (hj : j ≠ k) :
    slice j (step env k c L).1 = slice j L := by
  have hmodify : ∀ g, slice j (modify k g L) = slice j L :=
    fun g => slice_atSink_ne h (Ne.symm hj) (mapBase_apart g)
  cases c with
  | replacePattern m dev msg rest => cases rest <;> rfl
  | writeMessage dev msg => exact slice_written_ne h hj dev _
  | storeTemplate T => exact hmodify _
  | refillPatterns => exact hmodify _
  | storeDatetimePattern p => exact hmodify _
  | storeEnabled b dev => exact hmodify _
  | closeFile dev => exact slice_atSink_ne h (Ne.symm hj) (onFile_apart _)
  | openFile dev => exact slice_atSink_ne h (Ne.symm hj) (onFile_apart _)
  | storeMinLevel lvl => exact hmodify _
  | construct s dev =>
    have hs : keyOf s ≠ j := fun heq => hj (heq.symm.trans hc.1)
    simp only [step, slice, onFile_apart (openNew dev) s L.world hs]
  | assign s dev => exact slice_put_ne (Ne.symm hj) L _ rfl
  | release old dev =>
    exact slice_release_ne (fun s hs heq => hj (heq.symm.trans (hc s hs))) dev L
  | erase dev => exact slice_put_ne (Ne.symm hj) L _ rfl
  | find => simp [step, slice, ofKey, Ne.symm hj]
  | _ => rfl

lemma slice_exec_of_ne (env : Env) (h : Good L) (t : Turn) (hj : j ≠ t.key) :
    slice j (t.exec env L) = slice j L := by
  cases t with
  | prepareLogMessage k m dev => exact slice_dispatch_ne h (Ne.symm hj) env dev m
  | _ =>
    exact slice_exec_ne h (by simpa [touches, Turn.key, eq_comm] using hj) _

lemma exec_good (env : Env) (h : Good L) (t : Turn) : Good (t.exec env L) := by
  cases t with
  | prepareLogMessage k m dev => exact (dispatch_does h env dev m).good
  | _ => exact (exec_does h _).good

lemma written_good (h : Good L) (dev : Device) (f : Sink → Option Str) :
    Good (written k dev f L) := by
  unfold written
  cases hs : L.loggerSinkMap k with
  | none => exact h
  | some s =>
    cases hf : f s.base with
    | none => simpa only [hf] using h
    | some msg =>
      simp only [hf]
      obtain ⟨hmasked, hsorted⟩ := (put_same h hs (writeMessage_same dev msg s L.world)
        (s.writeMessage dev msg L.world).state.2).1
      exact ⟨hmasked, hsorted⟩

lemma atSink_onFile_good (h : Good L) {f : SinkFile → Disk → Call (SinkFile × Disk)}
    (hf : ∀ g d, Masked g.fileStream → Masked (f g d).state.1.fileStream) :
    Good (L.atSink k (onFile f)).state := by
  cases hs : L.loggerSinkMap k with
  | none => simpa [Logger.atSink_none hs] using h
  | some s =>
    rw [Logger.atSink_some hs]
    refine put_good h _ fun t ht => ?_
    obtain rfl := Option.some.inj ht
    refine ⟨?_, (onFile_key f s L.world).trans (h.sorted k s hs)⟩
    have hmasked := h.masked k s hs
    cases s with
    | file g => exact hf g L.world.disk hmasked
    | _ => trivial

lemma step_good (env : Env) {c : Micro} (h : Good L) (hc : fits k c) :
    Good (step env k c L).1 := by
  have hmodify : ∀ g, Good (modify k g L) := fun g => (atSink_mapBase_does h g).good
  cases c with
  | replacePattern m dev msg rest => cases rest <;> exact h
  | writeMessage dev msg => exact written_good h dev fun _ => some msg
  | storeTemplate T => exact hmodify _
  | refillPatterns => exact hmodify _
  | storeDatetimePattern p => exact hmodify _
  | storeEnabled b dev => exact hmodify _
  | closeFile dev => exact atSink_onFile_good h fun _ _ => closeFile_masked
  | openFile dev => exact atSink_onFile_good h fun _ _ => openFile_masked
  | storeMinLevel lvl => exact hmodify _
  | construct s dev => exact ⟨h.masked, h.sorted⟩
  | assign s dev =>
    refine put_good h _ fun t ht => ?_
    obtain rfl := Option.some.inj ht
    exact ⟨hc.2, hc.1⟩
  | release old dev => exact release_good h old dev
  | erase dev => exact put_good h _ nofun
  | find => exact ⟨h.masked, h.sorted⟩
  | _ => exact h

/-- An object that has just been made has its file open, with the exception mask on, or not. -/
lemma openNew_masked {s : AnySink} (hs : isOpen s = false) (dev : Device) (w : World) :
    SinkMasked (onFile (openNew dev) s w).state.1 := by
  cases s with
  | file f =>
    have hclosed : Masked f.fileStream := fun hopen => absurd (hs.symm.trans hopen) nofun
    simp only [onFile, openNew]
    split
    · exact openFile_masked hclosed
    · exact hclosed
  | _ => trivial

/-- How a turn goes on: but for the change of the map no object is in the hands of the thread. -/
lemma step_next {c c' : Micro} (hstep : (step env k c L).2 = some c') :
    Plain c' ∨ (∃ s dev, c = .construct s dev ∧
      c' = .assign (onFile (openNew dev) s L.world).state.1 dev) ∨
      ∃ dev, c' = .release (L.loggerSinkMap k) dev := by
  have hlook : ∀ f : AnySink → Option Micro, (∀ s d, f s = some d → Plain d) →
      (look k L f).2 = some c' → Plain c' := by
    intro f hf hlook
    obtain ⟨s, -, hs⟩ := Option.bind_eq_some_iff.mp hlook
    exact hf s c' hs
  cases c with
  | getEnabled m dev =>
    refine .inl (hlook _ (fun s d hd => ?_) hstep)
    split_ifs at hd
    cases hd
    trivial
  | compareLevel m dev =>
    refine .inl (hlook _ (fun s d hd => ?_) hstep)
    split_ifs at hd <;> cases hd <;> trivial
  | copyTemplate m dev =>
    refine .inl (hlook _ (fun s d hd => ?_) hstep)
    cases hd
    trivial
  | lockPatterns m dev msg =>
    refine .inl (hlook _ (fun s d hd => ?_) hstep)
    cases hd
    trivial
  | replacePattern m dev msg rest =>
    cases rest with
    | nil =>
      cases hstep
      exact .inl trivial
    | cons cp rest =>
      refine .inl (hlook _ (fun s d hd => ?_) hstep)
      cases hd
      trivial
  | configChanged dev =>
    refine .inl (hlook _ (fun s d hd => ?_) hstep)
    split at hd
    · split_ifs at hd <;> cases hd <;> trivial
    · cases hd
  | storeTemplate T =>
    cases hstep
    exact .inl trivial
  | storeEnabled b dev =>
    cases hstep
    exact .inl trivial
  | construct s dev =>
    cases hstep
    exact .inr (.inl ⟨s, dev, rfl, rfl⟩)
  | assign s dev =>
    cases hstep
    exact .inr (.inr ⟨dev, rfl⟩)
  | erase dev =>
    cases hstep
    exact .inr (.inr ⟨dev, rfl⟩)
  | _ => cases hstep

lemma Plain.fits {c : Micro} (h : Plain c) : fits k c := by
  cases c <;> first | exact absurd h id | trivial

lemma step_fits (env : Env) {c c' : Micro} (h : Good L) (hc : fits k c)
    (hstep : (step env k c L).2 = some c') : fits k c' := by
  rcases step_next hstep with hplain | ⟨s, dev, rfl, rfl⟩ | ⟨dev, rfl⟩
  · exact hplain.fits
  · exact ⟨(onFile_key _ s L.world).trans hc.1, openNew_masked hc.2 dev L.world⟩
  · exact fun s hs => h.sorted k s hs

lemma enter_fits (t : Turn) : fits t.key t.enter := by
  cases t <;> first | exact ⟨rfl, rfl⟩ | trivial

lemma resume_enter (env : Env) (t : Turn) (L : Logger) :
    resume env t.key t.enter L = t.exec env L := by
  cases t with
  | prepareLogMessage k m dev => exact (dispatch_eq_written m).symm
  | _ => rfl

/-- **A turn concerns one sink.** -/
theorem machine_parts (env : Env) :
    Sharded.Parts (machine env) slice Good fits (Turn.exec env) (resume env) where
  enter t L := resume_enter env t L
  fits_enter t := enter_fits t
  inv_exec t _ h := exec_good env h t
  inv_step _ _ _ h hc := step_good env h hc
  fits_step _ _ _ h hc _ hstep := step_fits env h hc hstep
  goes_on k c L _ _ := rest_step env k c L
  apart_step _ _ _ _ h hc hj := slice_step_ne env h hc hj
  apart _ t _ h hj := slice_exec_of_ne env h t hj
  depends _ _ _ _ h h' hc hsame := by
    rw [slice_resume env h hc, slice_resume env h' hc, hsame]

end Ealogger.Turns
