import Ealogger.Lib.Exclusive
import Ealogger.LoggerView

/-!
One sink in the hands of many threads, at the grain of its own mutexes.

`prepare_log_message` takes five mutexes of the sink one after the other: the flag, the level,
the template, the pattern list and the pattern of the date are read at different moments, and
`set_msg_template` stores the template before it refills the list. That all of it belongs to
one configuration is due to the `Logger`, which locks one more mutex around each of these
calls and around the initialisation of the sink.
-/

namespace Ealogger.Snapshot

open LoggerView

/-- The sink under its key, and the strings passed to `write_message` so far. -/
structure Shared where
  sink : Sink
  written : List Str

/-- What a thread asks for: to have a message logged, a setting changed, the sink made anew. -/
inductive SinkOp
  | log (c : LogCall)
  | setMsgTemplate (msgTemplate : Str)
  | setDatetimePattern (datetimePattern : Str)
  | setEnabled (enabled : Bool)
  | setMinLvl (minLevel : LogLevel)
  | init (enabled : Bool) (minLvl : LogLevel) (msgTemplate datetimePattern logfile : Str)
      (flushBuffer : Bool)

/-- Where a call on the sink stands: each step is what happens under one of the inner mutexes,
or a turn of the loop over the pattern list, which is kept locked. -/
inductive Micro
  | getEnabled (m : LogMessage)
  | compareLevel (m : LogMessage)
  | copyTemplate (m : LogMessage)
  | lockPatterns (m : LogMessage) (msg : Str)
  | replacePattern (m : LogMessage) (msg : Str) (rest : List ConversionPattern)
  | writeMessage (msg : Str)
  | written
  | storeTemplate (msgTemplate : Str)
  | refillPatterns
  | storeDatetimePattern (datetimePattern : Str)
  | storeEnabled (enabled : Bool)
  | storeMinLevel (minLevel : LogLevel)
  | construct (enabled : Bool) (minLvl : LogLevel) (msgTemplate datetimePattern : Str)
  | assign (s : Sink)

def enter : SinkOp → Micro
  | .log c => .getEnabled c.message
  | .setMsgTemplate T => .storeTemplate T
  | .setDatetimePattern p => .storeDatetimePattern p
  | .setEnabled b => .storeEnabled b
  | .setMinLvl lvl => .storeMinLevel lvl
  | .init b lvl T p _ _ => .construct b lvl T p

def step (env : Env) (c : Micro) (t : Shared) : Shared × Option Micro :=
  match c with
  | .getEnabled m => (t, if t.sink.enabled then some (.compareLevel m) else none)
  | .compareLevel m =>
    (t,
      if m.severity.value < t.sink.minLevel.value ∧ m.logType = .default then none
      else if m.severity = .ealInternal then none
      else if m.logType = .stack then some (.writeMessage (Sink.stackText m))
      else some (.copyTemplate m))
  | .copyTemplate m => (t, some (.lockPatterns m t.sink.msgTemplate))
  | .lockPatterns m msg => (t, some (.replacePattern m msg t.sink.vecConvPatterns))
  | .replacePattern m msg (cp :: rest) =>
    (t, some (.replacePattern m (t.sink.applyPattern env m msg cp) rest))
  | .replacePattern _ msg [] => (t, some (.writeMessage msg))
  | .writeMessage msg => ({ t with written := t.written ++ [msg] }, some .written)
  | .written => (t, none)
  | .storeTemplate T => ({ t with sink := { t.sink with msgTemplate := T } }, some .refillPatterns)
  | .refillPatterns => ({ t with sink := t.sink.fillConvPatterns }, none)
  | .storeDatetimePattern p => ({ t with sink := t.sink.setDatetimePattern p }, none)
  | .storeEnabled b => ({ t with sink := t.sink.setEnabled b }, none)
  | .storeMinLevel lvl => ({ t with sink := t.sink.setMinLvl lvl }, none)
  | .construct b lvl T p => (t, some (.assign (Sink.new T p b lvl)))
  | .assign s => ({ t with sink := s }, none)

def machine (env : Env) : Exclusive.Machine Shared SinkOp Micro := ⟨enter, step env⟩

/-! ### The calls at once -/

def Shared.write (t : Shared) (msg : Option Str) : Shared :=
  { t with written := t.written ++ msg.toList }

/-- A call on the sink as the functions of `Sink` have it. -/
def exec (env : Env) (o : SinkOp) (t : Shared) : Shared :=
  match o with
  | .log c => t.write (t.sink.prepareLogMessage env c.message)
  | .setMsgTemplate T => { t with sink := t.sink.setMsgTemplate T }
  | .setDatetimePattern p => { t with sink := t.sink.setDatetimePattern p }
  | .setEnabled b => { t with sink := t.sink.setEnabled b }
  | .setMinLvl lvl => { t with sink := t.sink.setMinLvl lvl }
  | .init b lvl T p _ _ => { t with sink := Sink.new T p b lvl }

/-- What is left of a call, all of it in the configuration of this moment. -/
def resume (env : Env) (c : Micro) (t : Shared) : Shared :=
  match c with
  | .getEnabled m => t.write (t.sink.prepareLogMessage env m)
  | .compareLevel m =>
    if m.severity.value < t.sink.minLevel.value ∧ m.logType = .default then t
    else if m.severity = .ealInternal then t
    else t.write (some (t.sink.text env m))
  | .copyTemplate m => t.write (some (t.sink.patternText env m))
  | .lockPatterns m msg =>
    t.write (some (t.sink.vecConvPatterns.foldl (t.sink.applyPattern env m) msg))
  | .replacePattern m msg rest => t.write (some (rest.foldl (t.sink.applyPattern env m) msg))
  | .writeMessage msg => t.write (some msg)
  | .written => t
  | .storeTemplate T => { t with sink := t.sink.setMsgTemplate T }
  | .refillPatterns => { t with sink := t.sink.fillConvPatterns }
  | .storeDatetimePattern p => { t with sink := t.sink.setDatetimePattern p }
  | .storeEnabled b => { t with sink := t.sink.setEnabled b }
  | .storeMinLevel lvl => { t with sink := t.sink.setMinLvl lvl }
  | .construct b lvl T p => { t with sink := Sink.new T p b lvl }
  | .assign s => { t with sink := s }

@[simp] lemma Shared.write_none (t : Shared) : t.write none = t := by
  simp [Shared.write]

/-- The filter, step by step and at once. -/
lemma resume_compareLevel (env : Env) (m : LogMessage) (t : Shared)
    (h : t.sink.enabled = true) :
    resume env (.compareLevel m) t = t.write (t.sink.prepareLogMessage env m) := by
  unfold resume Sink.prepareLogMessage Sink.text
  simp only [h, Bool.true_eq_false, if_false]
  split
  · exact (Shared.write_none t).symm
  · split
    · exact (Shared.write_none t).symm
    · split <;> rfl

/-- A step leaves what is left of the call as it is. -/
lemma resume_step (env : Env) (c : Micro) (t : Shared) :
    (∀ c', (step env c t).2 = some c' → resume env c' (step env c t).1 = resume env c t) ∧
      ((step env c t).2 = none → (step env c t).1 = resume env c t) := by
  cases c with
  | getEnabled m =>
    cases hen : t.sink.enabled with
    | false => simp [step, resume, Sink.prepareLogMessage, hen]
    | true =>
      simp only [step, hen, if_true, Option.some.injEq, reduceCtorEq, false_implies, and_true]
      rintro c' rfl
      exact resume_compareLevel env m t hen
  | compareLevel m =>
    simp only [step, resume, Sink.text]
    split
    · simp
    · split
      · simp
      · split <;> simp
  | replacePattern m msg rest =>
    cases rest with
    | nil => simp [step, resume]
    | cons cp rest => simp [step, resume]
  | _ => simp [step, resume, Shared.write, Sink.patternText, Sink.setMsgTemplate]

lemma machine_resumes (env : Env) : Exclusive.Resumes (machine env) (exec env) (resume env) := by
  refine ⟨fun o s => ?_, fun c s t c' h => ?_, fun c s t h => ?_⟩
  · cases o <;> rfl
  · have hgoes := (resume_step env c s).1 c'
    rw [show step env c s = (t, some c') from h] at hgoes
    exact hgoes rfl
  · have hends := (resume_step env c s).2
    rw [show step env c s = (t, none) from h] at hends
    exact hends rfl

/-- What has been written stays written. -/
lemma written_prefix_resume (env : Env) (c : Micro) (t : Shared) :
    t.written <+: (resume env c t).written := by
  cases c with
  | compareLevel m =>
    simp only [resume]
    split
    · exact List.prefix_refl _
    · split
      · exact List.prefix_refl _
      · exact List.prefix_append _ _
  | _ => simp [resume, Shared.write]

/-! ### The same calls on a synchronous `Logger` -/

/-- The call of the `Logger`. -/
def SinkOp.op (env : Env) (k : LoggerSink) : SinkOp → Op
  | .log c => c.op env
  | .setMsgTemplate T => .setMsgTemplate k T
  | .setDatetimePattern p => .setDatetimePattern k p
  | .setEnabled b => .setEnabled k b
  | .setMinLvl lvl => .setMinLvl k lvl
  | .init b lvl T p path fl => match k with
    | .ealSyslog => .initSyslogSink b lvl T p
    | .ealConsole => .initConsoleSink b lvl T p
    | .ealFileSimple => .initFileSink b lvl T p path fl

def Shared.view (t : Shared) : View := ⟨some t.sink, t.written⟩

lemma view_exec_op (env : Env) (k : LoggerSink) (o : SinkOp) (t : Shared) :
    (exec env o t).view = t.view.exec k (o.op env k) := by
  cases o with
  | log c => rfl
  | init b lvl T p path fl =>
    cases k <;> simp [SinkOp.op, View.exec, setter, made, exec, Shared.view]
  | _ => simp [SinkOp.op, View.exec, setter, exec, Shared.view, View.set]

lemma acts_op (env : Env) (k : LoggerSink) (o : SinkOp) : Acts k (o.op env k) := by
  cases o with
  | log c => exact Or.inl ⟨env, c, rfl⟩
  | init b lvl T p path fl => cases k <;> exact Or.inr (Or.inr (by simp [SinkOp.op, made]))
  | _ => exact Or.inr (Or.inl (by simp [SinkOp.op, setter]))

section Serial

variable {ι : Type} [DecidableEq ι]

/-- The calls of a `Logger` in the order in which the threads got the mutex. -/
def calls (env : Env) (k : LoggerSink) (as : List (Exclusive.Label ι SinkOp)) : List Op :=
  (Exclusive.acquired as).map fun p => p.2.op env k

omit [DecidableEq ι] in
lemma view_serial (env : Env) (k : LoggerSink) (t : Shared) (ps : List (ι × SinkOp)) :
    (Exclusive.serial (exec env) t ps).view = t.view.run k (ps.map fun p => p.2.op env k) := by
  induction ps generalizing t with
  | nil => rfl
  | cons p ps ih => exact (ih (exec env p.2 t)).trans (by rw [view_exec_op env k]; rfl)

/-- The threads as seen by the sink: as if a synchronous `Logger` had executed their calls one
after another, in an order that keeps the program order of each of them. -/
structure Serialized (env : Env) (k : LoggerSink) (L : Logger)
    (as : List (Exclusive.Label ι SinkOp)) (s : Exclusive.State ι Shared SinkOp Micro) : Prop where
  order : ∀ i, Exclusive.byThread i (Exclusive.acquired as) ++ (s.phase i).waits.toList =
    Exclusive.called i as
  alone : ∀ i j, (s.phase i).busy → (s.phase j).busy → i = j
  so_far : ∀ sync : List (Op × Device), sync.map Prod.fst = calls env k as →
    s.shared.written <+: stringsTo k (L.run sync).trace
  finished : (∀ i, ¬ (s.phase i).busy) → ∀ sync : List (Op × Device),
    sync.map Prod.fst = calls env k as → s.shared.written = stringsTo k (L.run sync).trace

/-- **One configuration for each message.** For a sink that stays in the map, any number of
threads, and all interleavings of the steps between its inner mutexes: every message is given
to `write_message` once and by one thread at a time, rendered as a synchronous `Logger`
renders it at its place in one order of all calls. -/
theorem serialized_of_legal (env : Env) (k : LoggerSink) (L : Logger) (s : AnySink)
    (as : List (Exclusive.Label ι SinkOp)) (hk : L.loggerSinkMap k = some s)
    (h : (Exclusive.lts (machine env)).Legal
      (Exclusive.start ⟨s.base, stringsTo k L.trace⟩) as) :
    Serialized env k L as ((Exclusive.lts (machine env)).run
      (Exclusive.start ⟨s.base, stringsTo k L.trace⟩) as) := by
  let t₀ : Shared := ⟨s.base, stringsTo k L.trace⟩
  have hview : t₀.view = view k L := by simp [t₀, Shared.view, view, hk]
  have hsettle := Exclusive.settle_eq_serial (machine_resumes env) h
  have hsync : ∀ sync : List (Op × Device), sync.map Prod.fst = calls env k as →
      stringsTo k (L.run sync).trace =
        (Exclusive.settle (resume env) ((Exclusive.lts (machine env)).run
          (Exclusive.start t₀) as)).written := by
    intro sync hcalls
    have hacts : ∀ o ∈ sync.map Prod.fst, Acts k o := by
      intro o ho
      obtain ⟨p, -, rfl⟩ := List.mem_map.mp (hcalls ▸ ho)
      exact acts_op env k p.2
    have hrun : view k (L.run sync) =
        (Exclusive.serial (exec env) t₀ (Exclusive.acquired as)).view := by
      rw [view_run sync hacts, view_serial env k, hview, hcalls]
      rfl
    calc stringsTo k (L.run sync).trace = (view k (L.run sync)).strings := rfl
      _ = (Exclusive.serial (exec env) t₀ (Exclusive.acquired as)).written := by rw [hrun]; rfl
      _ = _ := by rw [← hsettle]
  refine ⟨Exclusive.byThread_acquired h, fun i j => Exclusive.busy_unique h, fun sync hcalls => ?_,
    fun hidle sync hcalls => ?_⟩
  · rw [hsync sync hcalls]
    exact Exclusive.settle_of_forall (r := fun t t' : Shared => t.written <+: t'.written)
      (fun c t => written_prefix_resume env c t) fun t => List.prefix_refl _
  · rw [hsync sync hcalls, Exclusive.settle_of_idle (resume env) hidle]

/-- A message is being rendered; another thread waits to change the template. -/
def rendering : List (Exclusive.Label (Fin 2) SinkOp) :=
  [.call 0 (.log (.plain 0 [] "a".toList .ealInfo)), .call 1 (.setMsgTemplate "%s".toList),
    .acquire 0 (.log (.plain 0 [] "a".toList .ealInfo)), .micro 0, .micro 0, .micro 0]

theorem serialized_of_legal_rendering :
    Serialized Env.bare .ealConsole Logger.console rendering
      ((Exclusive.lts (machine Env.bare)).run
        (Exclusive.start ⟨Sink.new "%m".toList [] true .ealDebug, []⟩) rendering) :=
  serialized_of_legal Env.bare .ealConsole Logger.console
    (.console (Sink.new "%m".toList [] true .ealDebug)) rendering rfl
    ⟨rfl, rfl, ⟨rfl, rfl⟩, ⟨_, rfl⟩, ⟨_, rfl⟩, ⟨_, rfl⟩, trivial⟩

end Serial

end Ealogger.Snapshot
