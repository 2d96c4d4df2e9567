import Ealogger.Logger

/-!
What a `Logger` looks like from one sink: the settings of the sink and the strings it has been
handed. Setters, initialisations and messages act on this view alone.
-/

namespace Ealogger.LoggerView

variable {L : Logger} {k : LoggerSink}

/-- The strings handed to one sink. -/
def stringsTo (k : LoggerSink) (es : List Event) : List Str :=
  es.filterMap fun
    | .wrote j msg => if j = k then some msg else none
    | _ => none

/-- The change a setter makes to the sink of one key. -/
def setter (k : LoggerSink) : Op → Option (Sink → Sink)
  | .setMsgTemplate j T => if j = k then some (·.setMsgTemplate T) else none
  | .setDatetimePattern j p => if j = k then some (·.setDatetimePattern p) else none
  | .setEnabled j b => if j = k then some (·.setEnabled b) else none
  | .setMinLvl j lvl => if j = k then some (·.setMinLvl lvl) else none
  | _ => none

/-- The sink that an `init_*_sink` call puts under the key. -/
def made (k : LoggerSink) : Op → Option Sink
  | .initSyslogSink b lvl T p => if k = .ealSyslog then some (Sink.new T p b lvl) else none
  | .initConsoleSink b lvl T p => if k = .ealConsole then some (Sink.new T p b lvl) else none
  | .initFileSink b lvl T p _ _ => if k = .ealFileSimple then some (Sink.new T p b lvl) else none
  | _ => none

/-- What matters of a `Logger` to one sink: its settings and what it has been handed. -/
structure View where
  sink : Option Sink
  strings : List Str

def view (k : LoggerSink) (L : Logger) : View :=
  ⟨(L.loggerSinkMap k).map AnySink.base, stringsTo k L.trace⟩

def View.log (env : Env) (m : LogMessage) (v : View) : View :=
  { v with strings := v.strings ++ (v.sink.bind (Sink.prepareLogMessage env · m)).toList }

def View.set (g : Sink → Sink) (v : View) : View := { v with sink := v.sink.map g }

/-- A call of `write_log`, of a setter of the sink, or of the `init_*_sink` of its key. -/
def View.exec (k : LoggerSink) (o : Op) (v : View) : View :=
  match o with
  | .writeLog env now stack msg lvl file lnumber func =>
    v.log env (LogMessage.build now stack msg lvl file lnumber func)
  | o => match setter k o, made k o with
    | some g, _ => v.set g
    | none, some s => { v with sink := some s }
    | none, none => v

def View.run (k : LoggerSink) (v : View) (os : List Op) : View :=
  os.foldl (fun v o => v.exec k o) v

/-- The calls that act on a view as `View.exec` says. -/
def Acts (k : LoggerSink) (o : Op) : Prop :=
  (∃ env, ∃ c : LogCall, o = c.op env) ∨ (setter k o).isSome = true ∨ (made k o).isSome = true

@[simp] lemma stringsTo_append (es fs : List Event) :
    stringsTo k (es ++ fs) = stringsTo k es ++ stringsTo k fs := by
  simp [stringsTo]

lemma stringsTo_wrote (j : LoggerSink) (o : Option Str) :
    stringsTo k ((o.map (Event.wrote j)).toList) = if j = k then o.toList else [] := by
  cases o <;> by_cases hj : j = k <;> simp [stringsTo, hj]

lemma view_dispatch (env : Env) (dev : Device) (m : LogMessage) (j : LoggerSink) :
    view k (L.dispatch env dev m j).state = if j = k then (view k L).log env m else view k L := by
  cases hs : L.loggerSinkMap j with
  | none =>
    by_cases hj : j = k
    · subst hj; simp [Logger.dispatch, hs, view, View.log]
    · simp [Logger.dispatch, hs, hj]
  | some s =>
    by_cases hj : j = k
    · subst hj; simp [Logger.dispatch, hs, view, View.log, Logger.put, stringsTo_wrote]
    · simp [Logger.dispatch, hs, view, Logger.put, stringsTo_wrote, hj,
        Function.update_of_ne (Ne.symm hj)]

/-- A synchronous message reaches the sink once. -/
lemma view_internalLogRoutine (env : Env) (dev : Device) (m : LogMessage) :
    view k (L.internalLogRoutine env dev m).state = (view k L).log env m := by
  have hfold : ∀ (ks : List LoggerSink) (L : Logger), ks.Nodup →
      view k (ks.foldl (fun (c : Call Logger) k => c.andThen fun L => L.dispatch env dev m k)
        (Call.ret L)).state = if k ∈ ks then (view k L).log env m else view k L := by
    intro ks
    induction ks with
    | nil => simp
    | cons j ks ih =>
      intro L hks
      obtain ⟨hj, hks⟩ := List.nodup_cons.mp hks
      rw [Logger.foldl_dispatch_cons, ih _ hks, view_dispatch]
      by_cases hjk : j = k
      · subst hjk; simp [hj]
      · simp [hjk, Ne.symm hjk]
  exact (hfold sinkKeys L nodup_sinkKeys).trans (if_pos (mem_sinkKeys k))

lemma view_atSink {f : AnySink → World → Call (AnySink × World)} {g : Sink → Sink}
    (hf : ∀ s w, (f s w).state.1.base = g s.base) :
    view k (L.atSink k f).state = (view k L).set g := by
  cases hs : L.loggerSinkMap k with
  | none => rw [Logger.atSink_none hs]; simp [view, View.set, hs]
  | some s => rw [Logger.atSink_some hs]; simp [view, View.set, hs, Logger.put, hf]

lemma view_setter {o : Op} {g : Sink → Sink} (h : setter k o = some g) (dev : Device) :
    view k (L.exec (o, dev)).state = (view k L).set g := by
  cases o with
  | setMsgTemplate j T =>
    obtain ⟨rfl, rfl⟩ : j = k ∧ (·.setMsgTemplate T) = g := by simpa [setter] using h
    exact view_atSink fun s w => AnySink.base_mapBase _ s
  | setDatetimePattern j p =>
    obtain ⟨rfl, rfl⟩ : j = k ∧ (·.setDatetimePattern p) = g := by simpa [setter] using h
    exact view_atSink fun s w => AnySink.base_mapBase _ s
  | setEnabled j b =>
    obtain ⟨rfl, rfl⟩ : j = k ∧ (·.setEnabled b) = g := by simpa [setter] using h
    exact view_atSink fun s w => AnySink.setEnabled_base b dev s w
  | setMinLvl j lvl =>
    obtain ⟨rfl, rfl⟩ : j = k ∧ (·.setMinLvl lvl) = g := by simpa [setter] using h
    exact view_atSink fun s w => AnySink.base_mapBase _ s
  | _ => simp [setter] at h

lemma view_install (c : Call (AnySink × World)) (dev : Device) :
    view k (L.install k c dev).state = { view k L with sink := some c.state.1.base } := by
  let p : Logger → Prop := fun L' => view k L' = { view k L with sink := some c.state.1.base }
  rw [Logger.install, Call.catchAll_state]
  refine Call.andThen_state (p := p) ?_ fun L' hL' => ?_
  · simp [p, view, Logger.put]
  · simpa [p, view] using hL'

lemma view_made {o : Op} {s : Sink} (h : made k o = some s) (dev : Device) :
    view k (L.exec (o, dev)).state = { view k L with sink := some s } := by
  cases o with
  | initSyslogSink b lvl T p =>
    obtain ⟨rfl, rfl⟩ : k = .ealSyslog ∧ Sink.new T p b lvl = s := by simpa [made] using h
    exact view_install _ dev
  | initConsoleSink b lvl T p =>
    obtain ⟨rfl, rfl⟩ : k = .ealConsole ∧ Sink.new T p b lvl = s := by simpa [made] using h
    exact view_install _ dev
  | initFileSink b lvl T p path fl =>
    obtain ⟨rfl, rfl⟩ : k = .ealFileSimple ∧ Sink.new T p b lvl = s := by simpa [made] using h
    refine (view_install _ dev).trans ?_
    simp [AnySink.base]
  | _ => simp [made] at h

lemma view_exec {o : Op} (h : Acts k o) (dev : Device) :
    view k (L.exec (o, dev)).state = (view k L).exec k o := by
  rcases h with ⟨env, c, rfl⟩ | h | h
  · exact view_internalLogRoutine env dev c.message
  · obtain ⟨g, hg⟩ := Option.isSome_iff_exists.mp h
    rw [view_setter hg]
    cases o <;> simp_all [setter, View.exec]
  · obtain ⟨s, hs⟩ := Option.isSome_iff_exists.mp h
    rw [view_made hs]
    cases o <;> simp_all [made, setter, View.exec]

lemma view_run (os : List (Op × Device)) (h : ∀ o ∈ os.map Prod.fst, Acts k o) :
    view k (L.run os) = (view k L).run k (os.map Prod.fst) := by
  induction os generalizing L with
  | nil => rfl
  | cons o os ih =>
    obtain ⟨o, dev⟩ := o
    rw [Logger.run_cons, ih (fun o ho => h o (by simp [ho])), view_exec (h o (by simp))]
    rfl

/-- Nothing comes of an internal message. -/
lemma View.log_silent (env : Env) {m : LogMessage} (hm : m.severity = .ealInternal) (v : View) :
    v.log env m = v := by
  have hnone : v.sink.bind (Sink.prepareLogMessage env · m) = none := by
    cases v.sink with
    | none => rfl
    | some s => exact Sink.prepareLogMessage_internal env s hm
  simp [View.log, hnone]

/-- No operation takes the sink away. -/
lemma View.exec_isSome (v : View) (o : Op) (h : v.sink.isSome = true) :
    (v.exec k o).sink.isSome = true := by
  cases o with
  | writeLog env now stack msg lvl file lnumber func => exact h
  | _ =>
    simp only [View.exec]
    split
    · simpa [View.set] using h
    · rfl
    · exact h

lemma View.run_isSome (v : View) (os : List Op) (h : v.sink.isSome = true) :
    (v.run k os).sink.isSome = true := by
  induction os generalizing v with
  | nil => exact h
  | cons o os ih => exact ih _ (v.exec_isSome o h)

end Ealogger.LoggerView
