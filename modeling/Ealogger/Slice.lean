import Ealogger.FileView

/-!
The sinks of a `Logger` do not know of each other.

A slice of a `Logger` is what it would be with one sink only: the object under one key, the
target that such a sink writes to, and the events of that key. An operation on the sink acts on
the slice as it acts on the `Logger`, exceptions included; an operation on another sink does not
act on it at all.
-/

namespace Ealogger.Slice

open Streams FileFailure FileView

variable {L : Logger} {k j : LoggerSink}

/-- The target of the sinks of one key. -/
def worldOf (k : LoggerSink) (w : World) : World :=
  match k with
  | .ealConsole => ⟨Disk.empty, w.stdout, []⟩
  | .ealSyslog => ⟨Disk.empty, [], w.syslogCalls⟩
  | .ealFileSimple => ⟨w.disk, [], []⟩

def ofKey (k : LoggerSink) : Event → Bool
  | .wrote j _ => j = k
  | .initialized j _ => j = k
  | .queueEmpty _ => false

/-- A `Logger` without the other sinks. -/
def slice (k : LoggerSink) (L : Logger) : Logger :=
  ⟨fun j => if j = k then L.loggerSinkMap j else none, worldOf k L.world,
    L.trace.filter (ofKey k)⟩

/-- The operations that concern the sink of one key. -/
def touches (k : LoggerSink) : Op → Bool
  | .writeLog .. => true
  | .initSyslogSink .. => k = .ealSyslog
  | .initConsoleSink .. => k = .ealConsole
  | .initFileSink .. => k = .ealFileSimple
  | .setMsgTemplate j _ => j = k
  | .setDatetimePattern j _ => j = k
  | .setEnabled j _ => j = k
  | .setMinLvl j _ => j = k
  | .discardSink j => j = k
  | .isInitialized j => j = k
  | .queueEmpty => false

/-- How the operations on the sink end, call by call. -/
def answers (k : LoggerSink) (L : Logger) : List (Op × Device) → List Exit
  | [] => []
  | o :: os =>
    (if touches k o.1 then [(L.exec o).exit] else []) ++ answers k (L.exec o).state os

/-! ### Calls on an object -/

/-- On an object of the key the call reads and changes no other target. -/
def Local (k : LoggerSink) (f : AnySink → World → Call (AnySink × World)) : Prop :=
  ∀ s w, keyOf s = k → f s (worldOf k w) = (f s w).map fun st => (st.1, worldOf k st.2)

/-- On an object of another key it leaves the target of this one alone. -/
def Apart (k : LoggerSink) (f : AnySink → World → Call (AnySink × World)) : Prop :=
  ∀ s w, keyOf s ≠ k → worldOf k (f s w).state.2 = worldOf k w

lemma mapBase_local (g : Sink → Sink) : Local k fun s w => .ret (s.mapBase g, w) :=
  fun _ _ _ => rfl

lemma mapBase_apart (g : Sink → Sink) : Apart k fun s w => .ret (s.mapBase g, w) :=
  fun _ _ _ => rfl

lemma setEnabled_local (b : Bool) (dev : Device) : Local k fun s w => s.setEnabled b dev w := by
  rintro (s | s | f) w rfl <;> rfl

lemma setEnabled_apart (b : Bool) (dev : Device) : Apart k fun s w => s.setEnabled b dev w := by
  intro s w hs
  cases s with
  | console s => rfl
  | syslog s => rfl
  | file f => cases k <;> first | rfl | exact absurd rfl hs

/-! ### The map -/

@[simp] lemma slice_map_self (k : LoggerSink) (L : Logger) :
    (slice k L).loggerSinkMap k = L.loggerSinkMap k := if_pos rfl

lemma slice_map_ne (hj : j ≠ k) (L : Logger) : (slice k L).loggerSinkMap j = none := if_neg hj

lemma slice_put_self (L : Logger) (s : Option AnySink) (w : World) :
    slice k (L.put k s w) = (slice k L).put k s (worldOf k w) := by
  simp only [slice, Logger.put, Logger.mk.injEq, and_true]
  ext1 j
  by_cases hj : j = k
  · subst hj; simp
  · simp [hj]

lemma slice_put_ne (hj : j ≠ k) (L : Logger) (s : Option AnySink) {w : World}
    (hw : worldOf k w = worldOf k L.world) : slice k (L.put j s w) = slice k L := by
  simp only [slice, Logger.put, hw, Logger.mk.injEq, and_true]
  ext1 i
  by_cases hi : i = k
  · subst hi; simp [Ne.symm hj]
  · simp [hi]

lemma slice_atSink_self (h : Good L) {f : AnySink → World → Call (AnySink × World)}
    (hf : Local k f) : (L.atSink k f).map (slice k) = (slice k L).atSink k f := by
  cases hs : L.loggerSinkMap k with
  | none =>
    rw [Logger.atSink_none hs, Logger.atSink_none (by rw [slice_map_self, hs])]
    rfl
  | some s =>
    have hlocal := hf s L.world (h.sorted k s hs)
    have hworld : (slice k L).world = worldOf k L.world := rfl
    rw [Logger.atSink_some hs, Logger.atSink_some (by rw [slice_map_self, hs]), hworld, hlocal]
    exact congrArg (Call.mk _) (slice_put_self L _ _)

lemma slice_atSink_ne (h : Good L) (hj : j ≠ k)
    {f : AnySink → World → Call (AnySink × World)} (hf : Apart k f) :
    slice k (L.atSink j f).state = slice k L := by
  cases hs : L.loggerSinkMap j with
  | none => rw [Logger.atSink_none hs]; rfl
  | some s =>
    rw [Logger.atSink_some hs]
    exact slice_put_ne hj L _ (hf s L.world (by rw [h.sorted j s hs]; exact hj))

/-! ### A message -/

lemma writeMessage_local (dev : Device) (msg : Str) :
    Local k fun s w => s.writeMessage dev msg w := by
  rintro (s | s | f) w rfl <;> rfl

lemma writeMessage_apart (dev : Device) (msg : Str) :
    Apart k fun s w => s.writeMessage dev msg w := by
  intro s w hs
  rcases s with s | s | f <;> cases k <;> first | rfl | exact absurd rfl hs

lemma prepareLogMessage_local (env : Env) (dev : Device) (m : LogMessage) :
    Local k fun s w => s.prepareLogMessage env dev m w := by
  intro s w hs
  simp only [AnySink.prepareLogMessage]
  cases s.base.prepareLogMessage env m with
  | none => rfl
  | some msg => exact writeMessage_local dev msg s w hs

lemma prepareLogMessage_apart (env : Env) (dev : Device) (m : LogMessage) :
    Apart k fun s w => s.prepareLogMessage env dev m w := by
  intro s w hs
  simp only [AnySink.prepareLogMessage]
  cases s.base.prepareLogMessage env m with
  | none => rfl
  | some msg => exact writeMessage_apart dev msg s w hs

/-- A call on the object, and the string that it has been handed. -/
def wrote (j : LoggerSink) (f : AnySink → World → Call (AnySink × World)) (msg : Option Str)
    (s : AnySink) (L : Logger) : Logger :=
  { L.put j (some (f s L.world).state.1) (f s L.world).state.2 with
    trace := L.trace ++ (msg.map (Event.wrote j)).toList }

lemma slice_wrote_self (h : Good L) {f : AnySink → World → Call (AnySink × World)}
    (hf : Local k f) (msg : Option Str) {s : AnySink} (hs : L.loggerSinkMap k = some s) :
    slice k (wrote k f msg s L) = wrote k f msg s (slice k L) := by
  have hlocal : f s (worldOf k L.world) = (f s L.world).map fun st => (st.1, worldOf k st.2) :=
    hf s L.world (h.sorted k s hs)
  have hworld : (slice k L).world = worldOf k L.world := rfl
  have hput := slice_put_self (k := k) L (some (f s L.world).state.1) (f s L.world).state.2
  have htrace : ((msg.map (Event.wrote k)).toList).filter (ofKey k) =
      (msg.map (Event.wrote k)).toList := by
    cases msg <;> simp [ofKey]
  unfold wrote
  rw [hworld, hlocal]
  simp only [Call.map_state, slice, Logger.put, List.filter_append, htrace, Logger.mk.injEq,
    and_true] at hput ⊢
  exact hput

lemma slice_wrote_ne (h : Good L) (hj : j ≠ k) {f : AnySink → World → Call (AnySink × World)}
    (hf : Apart k f) (msg : Option Str) {s : AnySink} (hs : L.loggerSinkMap j = some s) :
    slice k (wrote j f msg s L) = slice k L := by
  have hput := slice_put_ne hj L (some (f s L.world).state.1)
    (hf s L.world (by rw [h.sorted j s hs]; exact hj))
  have htrace : ((msg.map (Event.wrote j)).toList).filter (ofKey k) = [] := by
    cases msg <;> simp [ofKey, hj]
  simp only [wrote, slice, Logger.put, List.filter_append, htrace, List.append_nil] at hput ⊢
  exact hput

lemma dispatch_some {s : AnySink} (hs : L.loggerSinkMap j = some s) (env : Env) (dev : Device)
    (m : LogMessage) :
    (L.dispatch env dev m j).state = wrote j (fun s w => s.prepareLogMessage env dev m w)
      (s.base.prepareLogMessage env m) s L := by
  simp only [Logger.dispatch, hs]
  rfl

lemma slice_dispatch_self (h : Good L) (env : Env) (dev : Device) (m : LogMessage) :
    slice k (L.dispatch env dev m k).state = ((slice k L).dispatch env dev m k).state := by
  cases hs : L.loggerSinkMap k with
  | none => simp [Logger.dispatch, hs]
  | some s =>
    rw [dispatch_some hs, dispatch_some ((slice_map_self k L).trans hs)]
    exact slice_wrote_self h (prepareLogMessage_local env dev m) _ hs

lemma slice_dispatch_ne (h : Good L) (hj : j ≠ k) (env : Env) (dev : Device) (m : LogMessage) :
    slice k (L.dispatch env dev m j).state = slice k L := by
  cases hs : L.loggerSinkMap j with
  | none => simp [Logger.dispatch, hs]
  | some s =>
    rw [dispatch_some hs]
    exact slice_wrote_ne h hj (prepareLogMessage_apart env dev m) _ hs

/-- A key without an entry is passed over. -/
lemma dispatch_absent (hs : L.loggerSinkMap j = none) (env : Env) (dev : Device)
    (m : LogMessage) : L.dispatch env dev m j = .ret L := by
  simp [Logger.dispatch, hs]

lemma slice_dispatch (h : Good L) (env : Env) (dev : Device) (m : LogMessage)
    (j : LoggerSink) :
    slice k (L.dispatch env dev m j).state = ((slice k L).dispatch env dev m j).state := by
  by_cases hj : j = k
  · subst hj
    exact slice_dispatch_self h env dev m
  · rw [slice_dispatch_ne h hj, dispatch_absent (slice_map_ne hj L)]
    rfl

lemma slice_internalLogRoutine (h : Good L) (env : Env) (dev : Device) (m : LogMessage) :
    (L.internalLogRoutine env dev m).map (slice k) =
      (slice k L).internalLogRoutine env dev m := by
  have hfold : ∀ (ks : List LoggerSink) (L : Logger), Good L →
      slice k (ks.foldl (fun (c : Call Logger) k => c.andThen fun L => L.dispatch env dev m k)
        (Call.ret L)).state =
      (ks.foldl (fun (c : Call Logger) k => c.andThen fun L => L.dispatch env dev m k)
        (Call.ret (slice k L))).state := by
    intro ks
    induction ks with
    | nil => exact fun _ _ => rfl
    | cons j ks ih =>
      intro L h
      rw [Logger.foldl_dispatch_cons, Logger.foldl_dispatch_cons,
        ih _ (dispatch_does h env dev m).good, slice_dispatch h]
  rw [Call.eq_ret (Logger.internalLogRoutine_exit env dev m L),
    Call.eq_ret (Logger.internalLogRoutine_exit env dev m (slice k L))]
  exact congrArg Call.ret (hfold sinkKeys L h)

/-- Of a message a slice sees the turn of its sink. -/
lemma slice_routine (h : Good L) (env : Env) (dev : Device) (m : LogMessage) :
    slice k (L.internalLogRoutine env dev m).state = slice k (L.dispatch env dev m k).state := by
  have hfold : ∀ (ks : List LoggerSink) (L : Logger), Good L → ks.Nodup →
      slice k (ks.foldl (fun (c : Call Logger) k => c.andThen fun L => L.dispatch env dev m k)
        (Call.ret L)).state =
      if k ∈ ks then slice k (L.dispatch env dev m k).state else slice k L := by
    intro ks
    induction ks with
    | nil => exact fun _ _ _ => rfl
    | cons j ks ih =>
      intro L h hks
      obtain ⟨hj, hks⟩ := List.nodup_cons.mp hks
      have hgood := (dispatch_does h (k := j) env dev m).good
      rw [Logger.foldl_dispatch_cons, ih _ hgood hks]
      by_cases hjk : j = k
      · subst hjk; simp [hj]
      · have hnext := slice_dispatch_ne h hjk env dev m
        rw [slice_dispatch hgood, hnext, ← slice_dispatch h]
        simp [Ne.symm hjk]
  exact (hfold sinkKeys L h nodup_sinkKeys).trans (if_pos (mem_sinkKeys k))

/-- Nothing comes of an internal message. -/
lemma slice_internal (h : Good L) (env : Env) (dev : Device) {m : LogMessage}
    (hm : m.severity = .ealInternal) (j : LoggerSink) :
    slice k (L.dispatch env dev m j).state = slice k L := by
  by_cases hj : j = k
  · subst hj
    cases hs : L.loggerSinkMap j with
    | none => simp [Logger.dispatch, hs]
    | some s =>
      have hnone : s.base.prepareLogMessage env m = none :=
        Sink.prepareLogMessage_internal env s.base hm
      have hsame : L.put j (some s) L.world = L := by
        simp only [Logger.put, ← hs, Function.update_eq_self]
      simp [Logger.dispatch, hs, AnySink.prepareLogMessage, hnone, hsame, slice]
  · exact slice_dispatch_ne h hj env dev m

/-! ### Sinks that come and go -/

lemma destroy_local (dev : Device) (s : AnySink) (w : World) (hs : keyOf s = k) :
    s.destroy dev (worldOf k w) = (s.destroy dev w).map (worldOf k) := by
  rcases s with s | s | f <;> subst hs <;> rfl

lemma destroy_apart (dev : Device) (s : AnySink) (w : World) (hs : keyOf s ≠ k) :
    worldOf k (s.destroy dev w).state = worldOf k w := by
  rcases s with s | s | f <;> cases k <;> first | rfl | exact absurd rfl hs

lemma slice_release_self {old : Option AnySink} (hold : ∀ s, old = some s → keyOf s = k)
    (dev : Device) (L : Logger) :
    (L.release old dev).map (slice k) = (slice k L).release old dev := by
  cases old with
  | none => rfl
  | some s =>
    have hlocal := destroy_local dev s L.world (hold s rfl)
    have hworld : (slice k L).world = worldOf k L.world := rfl
    simp only [Logger.release, hworld, hlocal]
    rfl

lemma slice_release_ne {old : Option AnySink} (hold : ∀ s, old = some s → keyOf s ≠ k)
    (dev : Device) (L : Logger) : slice k (L.release old dev).state = slice k L := by
  cases old with
  | none => rfl
  | some s =>
    simp only [Logger.release, Call.map_state, slice, destroy_apart dev s L.world (hold s rfl)]

lemma slice_install_self (h : Good L) (c : Call (AnySink × World)) (dev : Device) :
    (L.install k c dev).map (slice k) =
      (slice k L).install k (c.map fun st => (st.1, worldOf k st.2)) dev := by
  unfold Logger.install
  have hrelease : ∀ L', (L'.release (L.loggerSinkMap k) dev).map (slice k) =
      (slice k L').release (L.loggerSinkMap k) dev :=
    slice_release_self (fun s hs => h.sorted k s hs) dev
  rw [Call.map_catchAll, slice_map_self,
    Call.map_andThen (slice k) (fun L' => L'.release (L.loggerSinkMap k) dev) hrelease]
  refine congrArg (fun c => Call.catchAll (Call.andThen c _)) ?_
  exact congrArg (Call.mk _) (slice_put_self L _ _)

lemma slice_install_ne (h : Good L) (hj : j ≠ k) {c : Call (AnySink × World)}
    (hc : worldOf k c.state.2 = worldOf k L.world) (dev : Device) :
    slice k (L.install j c dev).state = slice k L := by
  have hold : ∀ s, L.loggerSinkMap j = some s → keyOf s ≠ k := fun s hs => by
    rw [h.sorted j s hs]
    exact hj
  let p : Logger → Prop := fun L' => slice k L' = slice k L
  rw [Logger.install, Call.catchAll_state]
  refine Call.andThen_state (p := p) (slice_put_ne hj L _ hc) fun L' hL' => ?_
  exact (slice_release_ne hold dev L').trans hL'

lemma slice_discard_self (h : Good L) (dev : Device) :
    (L.discard k dev).map (slice k) = (slice k L).discard k dev := by
  unfold Logger.discard Logger.erase
  rw [Call.map_catchAll, slice_release_self (fun s hs => h.sorted k s hs), slice_put_self,
    slice_map_self]
  rfl

lemma slice_discard_ne (h : Good L) (hj : j ≠ k) (dev : Device) :
    slice k (L.discard j dev).state = slice k L := by
  have hold : ∀ s, L.loggerSinkMap j = some s → keyOf s ≠ k := fun s hs => by
    rw [h.sorted j s hs]
    exact hj
  rw [Logger.discard, Call.catchAll_state, Logger.erase, slice_release_ne hold]
  exact slice_put_ne hj L none rfl

/-! ### Operations -/

lemma new_local (dev : Device) (T p : Str) (enabled : Bool) (lvl : LogLevel) (path : Str)
    (fl : Bool) (w : World) :
    (((SinkFile.new T p enabled lvl path fl dev w.disk).map fun st =>
      (AnySink.file st.1, { w with disk := st.2 })).map fun st =>
        (st.1, worldOf .ealFileSimple st.2)) =
      (SinkFile.new T p enabled lvl path fl dev (worldOf .ealFileSimple w).disk).map fun st =>
        (AnySink.file st.1, { worldOf .ealFileSimple w with disk := st.2 }) := rfl

/-- **An operation on the sink.** -/
theorem slice_exec (h : Good L) {o : Op} (ho : touches k o = true) (dev : Device) :
    (L.exec (o, dev)).map (slice k) = (slice k L).exec (o, dev) := by
  cases o with
  | writeLog env now stack msg lvl file lnumber func => exact slice_internalLogRoutine h env dev _
  | initSyslogSink enabled lvl T p =>
    obtain rfl : k = .ealSyslog := by simpa [touches] using ho
    exact slice_install_self h _ dev
  | initConsoleSink enabled lvl T p =>
    obtain rfl : k = .ealConsole := by simpa [touches] using ho
    exact slice_install_self h _ dev
  | initFileSink enabled lvl T p path fl =>
    obtain rfl : k = .ealFileSimple := by simpa [touches] using ho
    refine (slice_install_self h _ dev).trans ?_
    rw [new_local]
    rfl
  | setMsgTemplate j T =>
    obtain rfl : j = k := by simpa [touches] using ho
    exact slice_atSink_self h (mapBase_local _)
  | setDatetimePattern j p =>
    obtain rfl : j = k := by simpa [touches] using ho
    exact slice_atSink_self h (mapBase_local _)
  | setEnabled j b =>
    obtain rfl : j = k := by simpa [touches] using ho
    exact slice_atSink_self h (setEnabled_local b dev)
  | setMinLvl j lvl =>
    obtain rfl : j = k := by simpa [touches] using ho
    exact slice_atSink_self h (mapBase_local _)
  | discardSink j =>
    obtain rfl : j = k := by simpa [touches] using ho
    exact slice_discard_self h dev
  | isInitialized j =>
    obtain rfl : j = k := by simpa [touches] using ho
    simp [Logger.exec, Call.map, Call.ret, slice, ofKey]
  | queueEmpty => simp [touches] at ho

/-- **An operation on another sink.** -/
theorem slice_exec_ne (h : Good L) {o : Op} (ho : touches k o = false) (dev : Device) :
    slice k (L.exec (o, dev)).state = slice k L := by
  cases o with
  | writeLog env now stack msg lvl file lnumber func => simp [touches] at ho
  | initSyslogSink enabled lvl T p =>
    have hk : k ≠ .ealSyslog := by simpa [touches] using ho
    exact slice_install_ne h (Ne.symm hk) rfl dev
  | initConsoleSink enabled lvl T p =>
    have hk : k ≠ .ealConsole := by simpa [touches] using ho
    exact slice_install_ne h (Ne.symm hk) rfl dev
  | initFileSink enabled lvl T p path fl =>
    have hk : k ≠ .ealFileSimple := by simpa [touches] using ho
    refine slice_install_ne h (Ne.symm hk) ?_ dev
    cases k with
    | ealFileSimple => exact absurd rfl hk
    | _ => rfl
  | setMsgTemplate j T => exact slice_atSink_ne h (by simpa [touches] using ho) (mapBase_apart _)
  | setDatetimePattern j p =>
    exact slice_atSink_ne h (by simpa [touches] using ho) (mapBase_apart _)
  | setEnabled j b =>
    exact slice_atSink_ne h (by simpa [touches] using ho) (setEnabled_apart b dev)
  | setMinLvl j lvl => exact slice_atSink_ne h (by simpa [touches] using ho) (mapBase_apart _)
  | discardSink j => exact slice_discard_ne h (by simpa [touches] using ho) dev
  | isInitialized j =>
    have hj : j ≠ k := by simpa [touches] using ho
    simp [Logger.exec, slice, ofKey, hj]
  | queueEmpty => simp [Logger.exec, slice, ofKey]

/-- Two `Logger`s that a sink cannot tell apart. -/
lemma slice_exec_congr {L' : Logger} (h : Good L) (h' : Good L')
    (hsame : slice k L = slice k L') (o : Op × Device) :
    slice k (L.exec o).state = slice k (L'.exec o).state := by
  cases ho : touches k o.1 with
  | true =>
    have hexec := congrArg Call.state (slice_exec h ho o.2)
    have hexec' := congrArg Call.state (slice_exec h' ho o.2)
    rw [← hsame] at hexec'
    exact hexec.trans hexec'.symm
  | false => exact (slice_exec_ne h ho o.2).trans (hsame.trans (slice_exec_ne h' ho o.2).symm)

/-! ### Runs -/

lemma run_good (h : Good L) (os : List (Op × Device)) : Good (L.run os) := by
  induction os generalizing L with
  | nil => exact h
  | cons o os ih => exact ih (exec_does h o).good

/-- What one sink is and does in a run, and how the calls on it end, is what it is and does in
the run of the calls on it alone. -/
structure Independent (k : LoggerSink) (L : Logger) (os : List (Op × Device)) : Prop where
  state : slice k (L.run os) = (slice k L).run (os.filter fun o => touches k o.1)
  answers : answers k L os = answers k (slice k L) (os.filter fun o => touches k o.1)

lemma independent_of_good (h : Good L) (os : List (Op × Device)) : Independent k L os := by
  induction os generalizing L with
  | nil => exact ⟨rfl, rfl⟩
  | cons o os ih =>
    obtain ⟨hstate, hanswers⟩ := ih (exec_does h o).good
    cases ho : touches k o.1 with
    | true =>
      have hexec : (L.exec o).map (slice k) = (slice k L).exec o := slice_exec h ho o.2
      have hnext : slice k (L.exec o).state = ((slice k L).exec o).state :=
        congrArg Call.state hexec
      have hexit : (L.exec o).exit = ((slice k L).exec o).exit := by
        rw [← hexec, Call.map_exit]
      rw [hnext] at hstate hanswers
      refine ⟨?_, ?_⟩
      · rw [List.filter_cons_of_pos (by simpa using ho)]
        exact hstate
      · rw [List.filter_cons_of_pos (by simpa using ho), answers, answers, hanswers, hexit]
    | false =>
      have hnext : slice k (L.exec o).state = slice k L := slice_exec_ne h ho o.2
      rw [hnext] at hstate hanswers
      refine ⟨?_, ?_⟩
      · rw [List.filter_cons_of_neg (by simp [ho])]
        exact hstate
      · rw [List.filter_cons_of_neg (by simp [ho]), answers, ho]
        exact hanswers

end Ealogger.Slice
