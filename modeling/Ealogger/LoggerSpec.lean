import Ealogger.Logger

/-!
What a synchronous `Logger` is for, and that the `Logger` does it.

The specification knows of a sink no more than the four settings a user has given it, and
renders a message from the template in force at that moment. The cached pattern lists, the
streams and the devices of the `Logger` are abstracted away by `abs`; every operation on the
`Logger` is the operation of the specification on what is left.
-/

namespace Ealogger.LoggerSpec

/-- The settings of a sink. -/
structure Entry where
  enabled : Bool
  minLevel : LogLevel
  msgTemplate : Str
  datetimePattern : Str

structure Spec where
  entries : LoggerSink → Option Entry
  trace : List Event

def Entry.Emits (e : Entry) (m : LogMessage) : Prop :=
  e.enabled = true ∧ m.severity ≠ .ealInternal ∧
    (m.severity = .ealStack ∨ e.minLevel.value ≤ m.severity.value)

instance (e : Entry) (m : LogMessage) : Decidable (e.Emits m) :=
  inferInstanceAs (Decidable (_ ∧ _ ∧ _))

/-- A sink with these settings whose pattern list has just been computed. -/
def Entry.toSink (e : Entry) : Sink :=
  Sink.new e.msgTemplate e.datetimePattern e.enabled e.minLevel

/-- The message rendered from the current template. -/
def Entry.render (env : Env) (e : Entry) (m : LogMessage) : Str :=
  if m.severity = .ealStack then Sink.stackText m else e.toSink.patternText env m

namespace Spec

/-- What the sink of one key emits for a message. -/
def emission (env : Env) (m : LogMessage) (S : Spec) (k : LoggerSink) : List Event :=
  match S.entries k with
  | none => []
  | some e => if e.Emits m then [.wrote k (e.render env m)] else []

def set (S : Spec) (k : LoggerSink) (e : Option Entry) : Spec :=
  { S with entries := Function.update S.entries k e }

def modify (S : Spec) (k : LoggerSink) (g : Entry → Entry) : Spec :=
  S.set k ((S.entries k).map g)

def emit (S : Spec) (es : List Event) : Spec := { S with trace := S.trace ++ es }

def exec (o : Op) (S : Spec) : Spec :=
  match o with
  | .writeLog env now stack msg lvl file lnumber func =>
    S.emit (sinkKeys.flatMap
      (S.emission env (LogMessage.build now stack msg lvl file lnumber func)))
  | .initSyslogSink enabled minLvl T p => S.set .ealSyslog (some ⟨enabled, minLvl, T, p⟩)
  | .initConsoleSink enabled minLvl T p => S.set .ealConsole (some ⟨enabled, minLvl, T, p⟩)
  | .initFileSink enabled minLvl T p _ _ => S.set .ealFileSimple (some ⟨enabled, minLvl, T, p⟩)
  | .setMsgTemplate k T => S.modify k fun e => { e with msgTemplate := T }
  | .setDatetimePattern k p => S.modify k fun e => { e with datetimePattern := p }
  | .setEnabled k b => S.modify k fun e => { e with enabled := b }
  | .setMinLvl k lvl => S.modify k fun e => { e with minLevel := lvl }
  | .discardSink k => S.set k none
  | .isInitialized k => S.emit [.initialized k (S.entries k).isSome]
  | .queueEmpty => S.emit [.queueEmpty true]

def run (S : Spec) (ops : List Op) : Spec := ops.foldl (fun S o => S.exec o) S

def empty : Spec := ⟨fun _ => none, []⟩

end Spec

/-! ### The abstraction -/

def entryOf (s : Sink) : Entry := ⟨s.enabled, s.minLevel, s.msgTemplate, s.datetimePattern⟩

def abs (L : Logger) : Spec :=
  ⟨fun k => (L.loggerSinkMap k).map fun s => entryOf s.base, L.trace⟩

/-- No sink of the `Logger` has a stale pattern list. -/
def Fresh (L : Logger) : Prop := ∀ k s, L.loggerSinkMap k = some s → s.base.Fresh

lemma toSink_entryOf {s : Sink} (h : s.Fresh) : (entryOf s).toSink = s := by
  obtain ⟨T, p, b, lvl, vec⟩ := s
  simp only [Sink.Fresh] at h
  simp [entryOf, Entry.toSink, Sink.new, Sink.fillConvPatterns, h]

/-- The filter and the rendering of a sink with a current pattern list are those of its
settings. -/
lemma prepareLogMessage_entryOf (env : Env) {s : Sink} (h : s.Fresh) {m : LogMessage}
    (hm : m.logType = .stack ↔ m.severity = .ealStack) :
    s.prepareLogMessage env m =
      if (entryOf s).Emits m then some ((entryOf s).render env m) else none := by
  have hacc : s.accepts m = true ↔ (entryOf s).Emits m := by
    have hdef : m.logType = .default ↔ m.severity ≠ .ealStack := by
      rw [Ne, ← hm]; cases m.logType <;> simp
    by_cases hs : m.severity = .ealStack
    · have hlog := hm.mpr hs
      cases s.enabled <;> simp [Sink.accepts, Entry.Emits, entryOf, hlog, hs]
    · have hlog := hdef.mpr hs
      simp only [Sink.accepts, Entry.Emits, entryOf, hlog, hs, false_or]
      cases s.enabled <;> by_cases hi : m.severity = .ealInternal <;> simp [hi]
  have htext : s.text env m = (entryOf s).render env m := by
    simp only [Sink.text, Entry.render, toSink_entryOf h, hm]
  rw [Sink.prepareLogMessage_eq]
  by_cases he : (entryOf s).Emits m
  · rw [if_pos (hacc.mpr he), if_pos he, htext]
  · rw [if_neg (fun ha => he (hacc.mp ha)), if_neg he]

lemma abs_put (L : Logger) (k : LoggerSink) (s : Option AnySink) (w : World) :
    abs (L.put k s w) = (abs L).set k (s.map fun s => entryOf s.base) := by
  simp only [abs, Logger.put, Spec.set, Spec.mk.injEq, and_true]
  funext j
  by_cases hj : j = k
  · subst hj; simp
  · simp [hj]

lemma put_fresh {L : Logger} (h : Fresh L) (k : LoggerSink) {s : Option AnySink} (w : World)
    (hs : ∀ t, s = some t → t.base.Fresh) : Fresh (L.put k s w) := by
  intro j t ht
  by_cases hj : j = k
  · subst hj
    exact hs t (by simpa [Logger.put] using ht)
  · exact h j t (by simpa [Logger.put, hj] using ht)

/-! ### Each operation -/

/-- A step on the `Logger` that is a step `g` of the specification. -/
structure Simulates (L L' : Logger) (g : Spec → Spec) : Prop where
  fresh : Fresh L'
  abs_eq : abs L' = g (abs L)

lemma atSink_simulates {L : Logger} (h : Fresh L) (k : LoggerSink)
    {f : AnySink → World → Call (AnySink × World)} {g : Entry → Entry}
    (hfresh : ∀ s w, s.base.Fresh → (f s w).state.1.base.Fresh)
    (habs : ∀ s w, entryOf (f s w).state.1.base = g (entryOf s.base)) :
    Simulates L (L.atSink k f).state fun S => S.modify k g := by
  cases hk : L.loggerSinkMap k with
  | none =>
    refine ⟨by simpa [Logger.atSink, hk] using h, ?_⟩
    simp only [Logger.atSink, hk, Call.ret_state]
    have hentry : (abs L).entries k = none := by simp [abs, hk]
    simp only [Spec.modify, Spec.set, hentry, Option.map_none]
    rw [← hentry, Function.update_eq_self]
  | some s =>
    simp only [Logger.atSink, hk, Call.map_state]
    refine ⟨put_fresh h k _ fun t ht => ?_, ?_⟩
    · obtain rfl := Option.some.inj ht
      exact hfresh s _ (h k s hk)
    · rw [abs_put]
      simp [Spec.modify, abs, hk, habs]

lemma install_simulates {L : Logger} (h : Fresh L) (k : LoggerSink) {c : Call (AnySink × World)}
    (dev : Device) (hfresh : c.state.1.base.Fresh) :
    Simulates L (L.install k c dev).state fun S => S.set k (some (entryOf c.state.1.base)) := by
  let p : Logger → Prop := fun L' =>
    Fresh L' ∧ abs L' = (abs L).set k (some (entryOf c.state.1.base))
  have hp : p (L.install k c dev).state := by
    rw [Logger.install, Call.catchAll_state]
    refine Call.andThen_state (p := p) ⟨put_fresh h k _ fun t ht => ?_, ?_⟩ fun L' hL' => ?_
    · obtain rfl := Option.some.inj ht
      exact hfresh
    · simp [abs_put]
    · refine ⟨fun j t ht => hL'.1 j t (by simpa using ht), ?_⟩
      rw [← hL'.2]
      simp [abs]
  exact ⟨hp.1, hp.2⟩

lemma discard_simulates {L : Logger} (h : Fresh L) (k : LoggerSink) (dev : Device) :
    Simulates L (L.discard k dev).state fun S => S.set k none := by
  have hput := put_fresh h k (s := none) L.world fun t ht => absurd ht (by simp)
  rw [Logger.discard, Call.catchAll_state]
  refine ⟨fun j t ht => hput j t (by simpa [Logger.erase] using ht), ?_⟩
  have habs := abs_put L k none L.world
  rw [Option.map_none] at habs
  rw [← habs]
  simp [abs, Logger.erase]

lemma dispatch_simulates {L : Logger} (h : Fresh L) (env : Env) (dev : Device) {m : LogMessage}
    (hm : m.logType = .stack ↔ m.severity = .ealStack) (k : LoggerSink) :
    Simulates L (L.dispatch env dev m k).state fun S => S.emit (S.emission env m k) := by
  cases hk : L.loggerSinkMap k with
  | none =>
    simp only [Logger.dispatch, hk]
    exact ⟨h, by simp [abs, Spec.emit, Spec.emission, hk]⟩
  | some s =>
    simp only [Logger.dispatch, hk, Call.map_state]
    have hsame : ∀ w, abs (L.put k (some (s.prepareLogMessage env dev m L.world).state.1) w) =
        abs L := by
      intro w
      rw [abs_put, Option.map_some, AnySink.prepareLogMessage_base]
      have hentry : some (entryOf s.base) = (abs L).entries k := by simp [abs, hk]
      rw [hentry, Spec.set, Function.update_eq_self]
    have hput := put_fresh h k (s := some (s.prepareLogMessage env dev m L.world).state.1)
      (s.prepareLogMessage env dev m L.world).state.2 fun t ht => by
        obtain rfl := Option.some.inj ht
        rw [AnySink.prepareLogMessage_base]
        exact h k s hk
    refine ⟨hput, ?_⟩
    have hent := congrArg Spec.entries (hsame (s.prepareLogMessage env dev m L.world).state.2)
    have hemit : ((s.base.prepareLogMessage env m).map (Event.wrote k)).toList =
        (abs L).emission env m k := by
      rw [prepareLogMessage_entryOf env (h k s hk) hm]
      by_cases he : (entryOf s.base).Emits m <;> simp [Spec.emission, abs, hk, he]
    simp only [Spec.emit, ← hemit]
    exact congrArg (fun es => Spec.mk es (L.trace ++ _)) hent

/-- The loop of `internal_log_routine`, over any list of keys. -/
lemma foldl_dispatch_simulates {L : Logger} (h : Fresh L) (env : Env) (dev : Device)
    {m : LogMessage} (hm : m.logType = .stack ↔ m.severity = .ealStack) (ks : List LoggerSink) :
    Simulates L
      (ks.foldl (fun (c : Call Logger) k => c.andThen fun L => L.dispatch env dev m k)
        (Call.ret L)).state
      fun S => S.emit (ks.flatMap (S.emission env m)) := by
  induction ks generalizing L with
  | nil => exact ⟨h, by simp [Spec.emit]⟩
  | cons k ks ih =>
    have hsim := dispatch_simulates h env dev hm k
    rw [Logger.foldl_dispatch_cons]
    have hrest := ih hsim.fresh
    refine ⟨hrest.fresh, ?_⟩
    have hsame : ∀ j, (abs (L.dispatch env dev m k).state).emission env m j =
        (abs L).emission env m j := by
      intro j
      rw [hsim.abs_eq]
      rfl
    have habs := hrest.abs_eq
    simp only [funext hsame] at habs
    rw [hsim.abs_eq] at habs
    refine habs.trans ?_
    simp [Spec.emit]

/-- **One operation.** -/
theorem exec_simulates {L : Logger} (h : Fresh L) (o : Op × Device) :
    Simulates L (L.exec o).state (Spec.exec o.1) := by
  obtain ⟨op, dev⟩ := o
  cases op with
  | writeLog env now stack msg lvl file lnumber func =>
    refine foldl_dispatch_simulates h env dev ?_ sinkKeys
    rw [LogMessage.build_severity]
    exact LogMessage.build_logType now stack msg lvl file lnumber func
  | initSyslogSink enabled minLvl T p => exact install_simulates h _ dev (Sink.new_fresh ..)
  | initConsoleSink enabled minLvl T p => exact install_simulates h _ dev (Sink.new_fresh ..)
  | initFileSink enabled minLvl T p logfile fl =>
    have hbase := SinkFile.new_toSink dev L.world.disk T p enabled minLvl logfile fl
    have hsim := install_simulates h .ealFileSimple dev
      (c := (SinkFile.new T p enabled minLvl logfile fl dev L.world.disk).map fun st =>
        (AnySink.file st.1, { L.world with disk := st.2 }))
      (by simp only [Call.map_state, AnySink.base, hbase]; exact Sink.new_fresh ..)
    simp only [Call.map_state, AnySink.base, hbase] at hsim
    exact hsim
  | setMsgTemplate k T =>
    refine atSink_simulates h k (fun s w hs => ?_) fun s w => ?_
    · rw [Call.ret_state, AnySink.base_mapBase]; exact Sink.setMsgTemplate_fresh ..
    · rw [Call.ret_state, AnySink.base_mapBase]; rfl
  | setDatetimePattern k p =>
    refine atSink_simulates h k (fun s w hs => ?_) fun s w => ?_
    · rw [Call.ret_state, AnySink.base_mapBase]; exact Sink.setDatetimePattern_fresh hs p
    · rw [Call.ret_state, AnySink.base_mapBase]; rfl
  | setEnabled k b =>
    refine atSink_simulates h k (fun s w hs => ?_) fun s w => ?_
    · rw [AnySink.setEnabled_base]; exact Sink.setEnabled_fresh hs b
    · rw [AnySink.setEnabled_base]; rfl
  | setMinLvl k lvl =>
    refine atSink_simulates h k (fun s w hs => ?_) fun s w => ?_
    · rw [Call.ret_state, AnySink.base_mapBase]; exact Sink.setMinLvl_fresh hs lvl
    · rw [Call.ret_state, AnySink.base_mapBase]; rfl
  | discardSink k => exact discard_simulates h k dev
  | isInitialized k => exact ⟨h, by simp [Logger.exec, abs, Spec.exec, Spec.emit]⟩
  | queueEmpty => exact ⟨h, rfl⟩

lemma run_simulates {L : Logger} (h : Fresh L) (ops : List (Op × Device)) :
    Simulates L (L.run ops) fun S => S.run (ops.map Prod.fst) := by
  induction ops generalizing L with
  | nil => exact ⟨h, rfl⟩
  | cons o os ih =>
    have hstep := exec_simulates h o
    have hrest := ih hstep.fresh
    refine ⟨hrest.fresh, ?_⟩
    rw [Logger.run_cons, hrest.abs_eq, hstep.abs_eq]
    rfl

lemma new_fresh (d : Disk) : Fresh (Logger.new d) := by
  intro k s hk
  simp [Logger.new] at hk

/-- **Refinement.** For every sequence of public operations and all answers of the device,
the strings handed to the sinks and the answers to the caller are those of the
specification. -/
theorem trace_refines (d : Disk) (ops : List (Op × Device)) :
    ((Logger.new d).run ops).trace = (Spec.empty.run (ops.map Prod.fst)).trace := by
  have h := (run_simulates (new_fresh d) ops).abs_eq
  exact congrArg Spec.trace h

end Ealogger.LoggerSpec
