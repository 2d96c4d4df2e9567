import Ealogger.Ledger
import Ealogger.LoggerView

/-!
One message, every target: what a synchronous `Logger` emits on standard output, in the log
file and through `syslog(3)`.

`sink_syslog.cpp` is compiled without `config.h`, so `EALOGGER_SYSLOG` is not defined in it
and `write_message` does nothing there. The console and the log file receive every message
that passes their minimum level, in order; `syslog(3)` is never called.
-/

namespace Ealogger.FanOut

open Streams FileView FileFailure
open FileToggle (lines)

/-- The table the constructor of `SinkSyslog` fills under `EALOGGER_SYSLOG`, with the
priorities of `syslog(3)`. -/
def loglevelSyslogLookup : LogLevel → ℕ
  | .ealDebug => 7
  | .ealInfo => 6
  | .ealWarning => 4
  | .ealError => 3
  | .ealFatal => 2
  | .ealStack => 2
  | .ealInternal => 7

/-- A call of `write_log`, with the environment it runs in and the answers of the device. -/
structure Write where
  env : Env
  call : LogCall
  dev : Device

def run (L : Logger) (ws : List Write) : Logger :=
  L.run (ws.map fun w => (w.call.op w.env, w.dev))

/-- The severity reaches the minimum level of the sink; a stack message is never held back. -/
def Passes (s : Sink) (w : Write) : Prop :=
  w.call.lvl = .ealStack ∨ s.minLevel.value ≤ w.call.lvl.value

instance (s : Sink) (w : Write) : Decidable (Passes s w) := inferInstanceAs (Decidable (_ ∨ _))

/-- What one call is to emit on the target of a sink: the severity and the rendered text. -/
def emission (o : Option Sink) (w : Write) : List (LogLevel × Str) :=
  match o with
  | some s => if Passes s w then [(w.call.lvl, s.text w.env w.call.message)] else []
  | none => []

def emissions (o : Option Sink) (ws : List Write) : List (LogLevel × Str) :=
  ws.flatMap (emission o)

def texts (es : List (LogLevel × Str)) : List Str := es.map Prod.snd

/-- The settings of the sink of one key. -/
def settings (L : Logger) (k : LoggerSink) : Option Sink := (L.loggerSinkMap k).map AnySink.base

/-- Every sink there is has been enabled, and the log file is open. -/
structure Ready (L : Logger) : Prop where
  enabled : ∀ k s, settings L k = some s → s.enabled = true
  opened : ∀ f, (view L).1 = some f → f.fileStream.isOpen = true

/-- Each call is emitted exactly once on every target whose sink it passes, in order. -/
structure FansOut (L : Logger) (ws : List Write) : Prop where
  stdout : (run L ws).world.stdout =
    L.world.stdout ++ texts (emissions (settings L .ealConsole) ws)
  /-- The log file, with what its stream has still to write; no other file changes. -/
  logfile : ∀ i, text (view (run L ws)) i = text (view L) i ++
    if (stream (view L).1).file = some i then
      lines (texts (emissions (settings L .ealFileSimple) ws))
    else []
  syslog : (run L ws).world.syslogCalls = L.world.syslogCalls ++
    (emissions (settings L .ealSyslog) ws).map fun e => (loglevelSyslogLookup e.1, e.2)

/-! ### One sink -/

variable {L : Logger} {w : Write}

/-- An enabled sink hands on what the call is to emit. -/
lemma prepareLogMessage_eq_emission {s : Sink} (hs : s.enabled = true)
    (hw : w.call.lvl ≠ .ealInternal) :
    (s.prepareLogMessage w.env w.call.message).toList = texts (emission (some s) w) := by
  have hsev : w.call.message.severity = w.call.lvl := LogMessage.build_severity ..
  have htype : w.call.message.logType = .stack ↔ w.call.lvl = .ealStack :=
    LogMessage.build_logType ..
  have hacc : s.accepts w.call.message = true ↔ Passes s w := by
    simp only [Sink.accepts, Passes, hs, hsev, Bool.true_and, Bool.and_eq_true, bne_iff_ne, ne_eq,
      hw, not_false_eq_true, and_true, Bool.not_eq_true', Bool.and_eq_false_iff,
      decide_eq_false_iff_not, not_lt]
    rw [← htype, or_comm]
    cases w.call.message.logType <;> simp
  rw [Sink.prepareLogMessage_eq]
  by_cases hp : Passes s w
  · simp [emission, texts, hp, hacc.mpr hp]
  · have hno : s.accepts w.call.message = false := by
      rw [← Bool.not_eq_true, hacc]
      exact hp
    simp [emission, texts, hp, hno]

/-- The console line is the only one of the three that goes to standard output. -/
lemma dispatch_stdout (h : Good L) (env : Env) (dev : Device) (m : LogMessage) (k : LoggerSink) :
    (L.dispatch env dev m k).state.world.stdout = L.world.stdout ++
      if k = .ealConsole then
        ((settings L k).bind (Sink.prepareLogMessage env · m)).toList
      else [] := by
  cases hs : L.loggerSinkMap k with
  | none => simp [Logger.dispatch, hs, settings]
  | some s =>
    have hkey := h.sorted k s hs
    simp only [Logger.dispatch, hs, Call.map_state, Logger.put, settings, Option.map_some,
      Option.bind_some, AnySink.prepareLogMessage]
    cases hm : s.base.prepareLogMessage env m with
    | none => simp
    | some msg =>
      cases s with
      | console s =>
        obtain rfl : k = .ealConsole := hkey.symm
        simp [AnySink.writeMessage]
      | syslog s =>
        obtain rfl : k = .ealSyslog := hkey.symm
        simp [AnySink.writeMessage]
      | file f =>
        obtain rfl : k = .ealFileSimple := hkey.symm
        simp [AnySink.writeMessage]

/-- Nobody calls `syslog(3)`. -/
lemma dispatch_syslogCalls (env : Env) (dev : Device) (m : LogMessage) (k : LoggerSink) :
    (L.dispatch env dev m k).state.world.syslogCalls = L.world.syslogCalls := by
  unfold Logger.dispatch AnySink.prepareLogMessage
  cases L.loggerSinkMap k with
  | none => rfl
  | some s =>
    simp only [Call.map_state]
    cases s.base.prepareLogMessage env m with
    | none => rfl
    | some msg => cases s <;> rfl

lemma settings_dispatch (env : Env) (dev : Device) (m : LogMessage) (j : LoggerSink) :
    settings (L.dispatch env dev m j).state = settings L := by
  funext k
  have hview := congrArg LoggerView.View.sink
    (LoggerView.view_dispatch (k := k) (L := L) env dev m j)
  refine hview.trans ?_
  split <;> rfl

/-! ### One call -/

lemma internalLogRoutine_state (env : Env) (dev : Device) (m : LogMessage) (L : Logger) :
    (L.internalLogRoutine env dev m).state =
      (((L.dispatch env dev m .ealConsole).state.dispatch env dev m .ealSyslog).state.dispatch
        env dev m .ealFileSimple).state := by
  unfold Logger.internalLogRoutine sinkKeys
  rw [Logger.foldl_dispatch_cons, Logger.foldl_dispatch_cons, Logger.foldl_dispatch_cons]
  rfl

def write (L : Logger) (w : Write) : Logger := (L.exec (w.call.op w.env, w.dev)).state

lemma write_eq (L : Logger) (w : Write) :
    write L w = (L.internalLogRoutine w.env w.dev w.call.message).state := rfl

lemma write_good (h : Good L) (w : Write) : Good (write L w) := (exec_does h _).good

lemma write_settings (L : Logger) (w : Write) : settings (write L w) = settings L := by
  rw [write_eq, internalLogRoutine_state, settings_dispatch, settings_dispatch,
    settings_dispatch]

lemma write_syslogCalls (L : Logger) (w : Write) :
    (write L w).world.syslogCalls = L.world.syslogCalls := by
  rw [write_eq, internalLogRoutine_state, dispatch_syslogCalls, dispatch_syslogCalls,
    dispatch_syslogCalls]

lemma write_stdout (h : Good L) (hr : Ready L) (hw : w.call.lvl ≠ .ealInternal) :
    (write L w).world.stdout =
      L.world.stdout ++ texts (emission (settings L .ealConsole) w) := by
  have hconsole := (dispatch_does h w.env w.dev w.call.message (k := .ealConsole)).good
  have hsyslog := (dispatch_does hconsole w.env w.dev w.call.message (k := .ealSyslog)).good
  rw [write_eq, internalLogRoutine_state, dispatch_stdout hsyslog, dispatch_stdout hconsole,
    dispatch_stdout h]
  simp only [if_true, reduceCtorEq, if_false, List.append_nil]
  cases hs : settings L .ealConsole with
  | none => rfl
  | some s => rw [Option.bind_some, prepareLogMessage_eq_emission (hr.enabled _ s hs) hw]

/-- The file sink, as the ledger sees it. -/
lemma received_eq (h : Good L) (hr : Ready L) (hw : w.call.lvl ≠ .ealInternal) (i : ℕ) :
    Ledger.messagesOf i ((ledger (view L)).received w.env w.call.message) =
      if (stream (view L).1).file = some i then
        texts (emission (settings L .ealFileSimple) w)
      else [] := by
  cases hs : L.loggerSinkMap .ealFileSimple with
  | none => simp [view_none hs, ledger, Ledger.received, stream, OFStream.closed]
  | some s =>
    obtain ⟨f, rfl⟩ := file_of_good h hs
    have hset : settings L .ealFileSimple = some f.toSink := by simp [settings, hs, AnySink.base]
    rw [hset, ← prepareLogMessage_eq_emission (hr.enabled _ _ hset) hw, view_file hs,
      Ledger.received_some (e := ⟨f.toSink, f.logFile, f.fileStream.file⟩) rfl]
    cases f.toSink.prepareLogMessage w.env w.call.message with
    | none => by_cases hi : f.fileStream.file = some i <;> simp [stream, hi]
    | some msg =>
      rw [Ledger.messagesOf_toList]
      by_cases hi : f.fileStream.file = some i <;> simp [stream, hi]

lemma write_follows (h : Good L) (hs : Sound (view L)) (hw : w.dev.Faultless) :
    Follows (view L) (view (write L w)) (ledger (view L))
      ((ledger (view L)).received w.env w.call.message) := by
  rw [write, view_exec h]
  exact exec_follows hs (w.call.op w.env) hw

/-- The stream is where it was. -/
lemma write_file (h : Good L) (hs : Sound (view L)) (hw : w.dev.Faultless) :
    (stream (view (write L w)).1).file = (stream (view L).1).file := by
  have hentry := congrArg (fun A : Ledger => A.entry.bind Entry.file)
    (write_follows h hs hw).ledger_eq
  have hfile : ∀ st : St, ((ledger st).entry.bind Entry.file) = (stream st.1).file := by
    rintro ⟨o, d⟩
    cases o <;> rfl
  rw [← hfile, ← hfile]
  exact hentry

lemma write_ready (h : Good L) (hs : Sound (view L)) (hr : Ready L) (hw : w.dev.Faultless) :
    Ready (write L w) := by
  refine ⟨fun k s hset => hr.enabled k s (write_settings L w ▸ hset), fun f hf => ?_⟩
  have hfile := write_file h hs hw
  have hentry := congrArg Ledger.entry (write_follows h hs hw).ledger_eq
  cases hold : (view L).1 with
  | none => simp [ledger, hf, hold] at hentry
  | some g =>
    rw [hf, hold] at hfile
    exact (OFStream.isOpen_eq hfile).trans (hr.opened g hold)

/-! ### Runs -/

@[simp] lemma run_cons (L : Logger) (w : Write) (ws : List Write) :
    run L (w :: ws) = run (write L w) ws := rfl

@[simp] lemma emissions_cons (o : Option Sink) (w : Write) (ws : List Write) :
    emissions o (w :: ws) = emission o w ++ emissions o ws := rfl

@[simp] lemma texts_append (es fs : List (LogLevel × Str)) :
    texts (es ++ fs) = texts es ++ texts fs := by
  simp [texts]

lemma run_stdout_logfile (h : Good L) (hs : Sound (view L)) (hr : Ready L) (ws : List Write)
    (hws : ∀ w ∈ ws, w.call.lvl ≠ .ealInternal ∧ w.dev.Faultless) :
    (run L ws).world.stdout = L.world.stdout ++ texts (emissions (settings L .ealConsole) ws) ∧
      ∀ i, text (view (run L ws)) i = text (view L) i ++
        if (stream (view L).1).file = some i then
          lines (texts (emissions (settings L .ealFileSimple) ws))
        else [] := by
  induction ws generalizing L with
  | nil => exact ⟨by simp [run, emissions, texts, Logger.run], fun i => by
      simp [run, emissions, texts, Logger.run, lines]⟩
  | cons w ws ih =>
    obtain ⟨hlvl, hdev⟩ := hws w List.mem_cons_self
    have hfollows := write_follows h hs hdev
    obtain ⟨hout, htext⟩ := ih (write_good h w) hfollows.sound (write_ready h hs hr hdev)
      fun v hv => hws v (List.mem_cons_of_mem w hv)
    rw [write_settings] at hout htext
    refine ⟨?_, fun i => ?_⟩
    · rw [run_cons, hout, write_stdout h hr hlvl, emissions_cons, texts_append,
        List.append_assoc]
    · rw [run_cons, htext, hfollows.text, received_eq h hr hlvl, write_file h hs hdev]
      by_cases hi : (stream (view L).1).file = some i <;> simp [hi, lines]

lemma run_syslogCalls (L : Logger) (ws : List Write) :
    (run L ws).world.syslogCalls = L.world.syslogCalls := by
  induction ws generalizing L with
  | nil => rfl
  | cons w ws ih => rw [run_cons, ih, write_syslogCalls]

lemma emissions_eq_nil_iff (o : Option Sink) (ws : List Write) :
    emissions o ws = [] ↔ ∀ s, o = some s → ∀ w ∈ ws, ¬ Passes s w := by
  cases o with
  | none => simp [emissions, emission]
  | some s => simp [emissions, emission, List.flatMap_eq_nil_iff]

lemma setup_sound (d : Disk) (hd : d.dir.Sound) (ops : List (Op × Device))
    (hops : ∀ o ∈ ops, o.2.Faultless) :
    Good ((Logger.new d).run ops) ∧ Sound (view ((Logger.new d).run ops)) := by
  have hrun : ∀ (ops : List (Op × Device)) (L : Logger), Good L → Sound (view L) →
      (∀ o ∈ ops, o.2.Faultless) → Good (L.run ops) ∧ Sound (view (L.run ops)) := by
    intro ops
    induction ops with
    | nil => exact fun L h hs _ => ⟨h, hs⟩
    | cons o os ih =>
      intro L h hs hos
      have hstep := exec_follows hs o.1 (hos o List.mem_cons_self)
      rw [← view_exec h] at hstep
      exact ih _ (exec_does h o).good hstep.sound fun p hp => hos p (List.mem_cons_of_mem o hp)
  exact hrun ops _ (new_good d) (Sound.none hd) hops

/-- **When every target gets its messages.** Let a new `Logger` have been set up by any
operations, so that every sink it has is enabled and the log file open, and let any messages
follow, none of them internal, without a fault of the device: each is emitted exactly once on
every target whose sink it passes, in order, if and only if none of them passes an
initialised syslog sink. -/
theorem fanOut_iff (d : Disk) (hd : d.dir.Sound) (ops : List (Op × Device))
    (hops : ∀ o ∈ ops, o.2.Faultless) (hready : Ready ((Logger.new d).run ops))
    (ws : List Write) (hws : ∀ w ∈ ws, w.call.lvl ≠ .ealInternal ∧ w.dev.Faultless) :
    FansOut ((Logger.new d).run ops) ws ↔
      ∀ s, settings ((Logger.new d).run ops) .ealSyslog = some s → ∀ w ∈ ws, ¬ Passes s w := by
  obtain ⟨hgood, hsound⟩ := setup_sound d hd ops hops
  obtain ⟨hout, htext⟩ := run_stdout_logfile hgood hsound hready ws hws
  rw [← emissions_eq_nil_iff]
  constructor
  · intro h
    have hcalls := h.syslog
    rw [run_syslogCalls, List.self_eq_append_right, List.map_eq_nil_iff] at hcalls
    exact hcalls
  · intro h
    refine ⟨hout, htext, ?_⟩
    rw [run_syslogCalls, h]
    simp

/-- A `Logger` with a console sink and a file sink, both for `"%m"`. -/
def consoleAndFile : Logger :=
  (Logger.new Disk.empty).run
    [(.initConsoleSink true .ealDebug "%m".toList [], Device.willing),
      (.initFileSink true .ealDebug "%m".toList [] "a.log".toList true, Device.willing)]

lemma consoleAndFile_ready : Ready consoleAndFile := by
  have hsettings : ∀ k s, settings consoleAndFile k = some s →
      some (Sink.new "%m".toList [] true .ealDebug) = some s := by
    intro k s hs
    cases k with
    | ealConsole => exact hs
    | ealSyslog => exact absurd hs.symm (Option.some_ne_none s)
    | ealFileSimple => exact hs
  refine ⟨fun k s hs => ?_, fun f hf => ?_⟩
  · obtain rfl := Option.some.inj (hsettings k s hs)
    rfl
  · obtain rfl : _ = f := Option.some.inj hf
    rfl

theorem fanOut_iff_hello :
    FansOut consoleAndFile [⟨Env.bare, .plain 0 [] "hello".toList .ealInfo, Device.willing⟩] ↔
      ∀ s, settings consoleAndFile .ealSyslog = some s →
        ∀ w ∈ [(⟨Env.bare, .plain 0 [] "hello".toList .ealInfo, Device.willing⟩ : Write)],
          ¬ Passes s w :=
  fanOut_iff Disk.empty Disk.empty_sound _ (by simp [Device.willing_faultless])
    consoleAndFile_ready _ (by simp [LogCall.plain, Device.willing_faultless])

/-- An initialised syslog sink emits nothing. -/
theorem fanOut_fails_on_syslog :
    ¬ ∀ (d : Disk) (ops : List (Op × Device)) (ws : List Write), d.dir.Sound →
      (∀ o ∈ ops, o.2.Faultless) → Ready ((Logger.new d).run ops) →
      (∀ w ∈ ws, w.call.lvl ≠ .ealInternal ∧ w.dev.Faultless) →
      FansOut ((Logger.new d).run ops) ws := by
  intro h
  have hready : Ready ((Logger.new Disk.empty).run
      [(.initSyslogSink true .ealDebug "%m".toList [], Device.willing)]) := by
    refine ⟨fun k s hs => ?_, fun f hf => absurd hf.symm (Option.some_ne_none f)⟩
    cases k with
    | ealSyslog =>
      obtain rfl : _ = s := Option.some.inj hs
      rfl
    | ealConsole => exact absurd hs.symm (Option.some_ne_none s)
    | ealFileSimple => exact absurd hs.symm (Option.some_ne_none s)
  have hrun := h Disk.empty
    [(.initSyslogSink true .ealDebug "%m".toList [], Device.willing)]
    [⟨Env.bare, .plain 0 [] "hello".toList .ealInfo, Device.willing⟩]
    Disk.empty_sound (by simp [Device.willing_faultless]) hready
    (by simp [LogCall.plain, Device.willing_faultless])
  exact absurd hrun.syslog (by decide)

end Ealogger.FanOut
