import Ealogger.FileFailure

/-!
A `Logger` as seen from the file system: its file sink, if there is one, and the disk. Every
operation acts on this part alone, and only those on the file sink act on it at all.
-/

namespace Ealogger.FileView

open Streams FileFailure

abbrev St := Option SinkFile × Disk

def fileSink : AnySink → Option SinkFile
  | .file f => some f
  | _ => none

def view (L : Logger) : St := ((L.loggerSinkMap .ealFileSimple).bind fileSink, L.world.disk)

/-- A call on the file sink, if there is one. -/
def onSink (st : St) (g : SinkFile → Disk → SinkFile × Disk) : St :=
  match st.1 with
  | some f => (some (g f st.2).1, (g f st.2).2)
  | none => st

def setBase (st : St) (g : Sink → Sink) : St :=
  onSink st fun f d => ({ f with toSink := g f.toSink }, d)

/-- The disk after the destruction of the sink. -/
def release (old : Option SinkFile) (dev : Device) (d : Disk) : Disk :=
  match old with
  | some f => (f.destroy dev d).state.2
  | none => d

def exec (o : Op × Device) (st : St) : St :=
  match o.1 with
  | .writeLog env now stack msg lvl file lnumber func =>
    onSink st fun f d =>
      (f.prepareLogMessage env o.2 (LogMessage.build now stack msg lvl file lnumber func) d).state
  | .initFileSink enabled minLvl T p path fl =>
    let made := (SinkFile.new T p enabled minLvl path fl o.2 st.2).state
    (some made.1, release st.1 o.2 made.2)
  | .setMsgTemplate .ealFileSimple T => setBase st (·.setMsgTemplate T)
  | .setDatetimePattern .ealFileSimple p => setBase st (·.setDatetimePattern p)
  | .setMinLvl .ealFileSimple lvl => setBase st (·.setMinLvl lvl)
  | .setEnabled .ealFileSimple b => onSink st fun f d => (f.setEnabled b o.2 d).state
  | .discardSink .ealFileSimple => (none, release st.1 o.2 st.2)
  | _ => st

variable {L : Logger} {k : LoggerSink}

@[simp] lemma view_put_self (s : Option AnySink) (w : World) :
    view (L.put .ealFileSimple s w) = (s.bind fileSink, w.disk) := by
  simp [view, Logger.put]

lemma view_put_ne (hk : k ≠ .ealFileSimple) (s : Option AnySink) (w : World) :
    view (L.put k s w) = ((view L).1, w.disk) := by
  simp [view, Logger.put, Function.update_of_ne (Ne.symm hk)]

/-- Under its own key there is nothing but a file sink. -/
lemma file_of_good (h : Good L) {s : AnySink} (hs : L.loggerSinkMap .ealFileSimple = some s) :
    ∃ f, s = .file f := by
  have hkey := h.sorted _ _ hs
  cases s with
  | file f => exact ⟨f, rfl⟩
  | _ => simp [keyOf] at hkey

lemma fileSink_of_good (h : Good L) (hk : k ≠ .ealFileSimple) {s : AnySink}
    (hs : L.loggerSinkMap k = some s) : fileSink s = none := by
  have hkey := h.sorted _ _ hs
  cases s with
  | file f => exact absurd hkey.symm hk
  | _ => rfl

lemma fileSink_map_of_good (h : Good L) (hk : k ≠ .ealFileSimple) :
    (L.loggerSinkMap k).bind fileSink = none := by
  cases hs : L.loggerSinkMap k with
  | none => rfl
  | some s => exact fileSink_of_good h hk hs

lemma view_file {f : SinkFile} (hs : L.loggerSinkMap .ealFileSimple = some (.file f)) :
    view L = (some f, L.world.disk) := by
  simp [view, hs, fileSink]

lemma view_none (hs : L.loggerSinkMap .ealFileSimple = none) : view L = (none, L.world.disk) := by
  simp [view, hs]

/-! ### A member call -/

lemma view_atSink_self (h : Good L) {f : AnySink → World → Call (AnySink × World)}
    {g : SinkFile → Disk → SinkFile × Disk}
    (hf : ∀ s w, (fileSink (f (.file s) w).state.1, (f (.file s) w).state.2.disk) =
      (some (g s w.disk).1, (g s w.disk).2)) :
    view (L.atSink .ealFileSimple f).state = onSink (view L) g := by
  cases hs : L.loggerSinkMap .ealFileSimple with
  | none => rw [Logger.atSink_none hs, Call.ret_state, view_none hs]; rfl
  | some s =>
    obtain ⟨s, rfl⟩ := file_of_good h hs
    rw [Logger.atSink_some hs, Call.map_state, view_put_self, Option.bind_some, view_file hs]
    exact hf s L.world

/-- A call on another sink, which leaves the disk alone. -/
lemma view_atSink_ne (h : Good L) (hk : k ≠ .ealFileSimple)
    {f : AnySink → World → Call (AnySink × World)}
    (hf : ∀ s w, fileSink s = none → (f s w).state.2.disk = w.disk) :
    view (L.atSink k f).state = view L := by
  cases hs : L.loggerSinkMap k with
  | none => rw [Logger.atSink_none hs, Call.ret_state]
  | some s =>
    rw [Logger.atSink_some hs, Call.map_state, view_put_ne hk,
      hf s L.world (fileSink_of_good h hk hs)]
    rfl

lemma view_setter (h : Good L) (k : LoggerSink) (g : Sink → Sink) :
    view (L.atSink k fun s w => .ret (s.mapBase g, w)).state =
      if k = .ealFileSimple then setBase (view L) g else view L := by
  split
  · next hk =>
    subst hk
    exact view_atSink_self h fun s w => rfl
  · next hk => exact view_atSink_ne h hk fun s w _ => rfl

lemma setEnabled_disk {s : AnySink} (hs : fileSink s = none) (b : Bool) (dev : Device)
    (w : World) : (s.setEnabled b dev w).state.2.disk = w.disk := by
  cases s with
  | file f => simp [fileSink] at hs
  | _ => rfl

/-! ### A message -/

lemma prepareLogMessage_disk {s : AnySink} (hs : fileSink s = none) (env : Env) (dev : Device)
    (m : LogMessage) (w : World) : (s.prepareLogMessage env dev m w).state.2.disk = w.disk := by
  unfold AnySink.prepareLogMessage
  split
  · cases s with
    | file f => simp [fileSink] at hs
    | _ => rfl
  · rfl

lemma prepareLogMessage_file (f : SinkFile) (env : Env) (dev : Device) (m : LogMessage)
    (w : World) :
    (AnySink.file f).prepareLogMessage env dev m w =
      (f.prepareLogMessage env dev m w.disk).map fun st =>
        (.file st.1, { w with disk := st.2 }) := by
  simp only [AnySink.prepareLogMessage, SinkFile.prepareLogMessage, AnySink.base]
  cases f.toSink.prepareLogMessage env m <;> rfl

lemma view_dispatch (h : Good L) (env : Env) (dev : Device) (m : LogMessage) (k : LoggerSink) :
    view (L.dispatch env dev m k).state =
      if k = .ealFileSimple then
        onSink (view L) fun f d => (f.prepareLogMessage env dev m d).state
      else view L := by
  -- what `dispatch` adds to the trace cannot be seen
  have htrace : view (L.dispatch env dev m k).state =
      view (L.atSink k fun s w => s.prepareLogMessage env dev m w).state := by
    unfold Logger.dispatch Logger.atSink
    cases L.loggerSinkMap k <;> rfl
  rw [htrace]
  split
  · next hk =>
    subst hk
    refine view_atSink_self h fun s w => ?_
    rw [prepareLogMessage_file]
    rfl
  · next hk => exact view_atSink_ne h hk fun s w hs => prepareLogMessage_disk hs env dev m w

/-- A message reaches the file sink once. -/
lemma view_internalLogRoutine (h : Good L) (env : Env) (dev : Device) (m : LogMessage) :
    view (L.internalLogRoutine env dev m).state =
      onSink (view L) fun f d => (f.prepareLogMessage env dev m d).state := by
  have hfold : ∀ (ks : List LoggerSink) (L : Logger), Good L → ks.Nodup →
      view (ks.foldl (fun (c : Call Logger) k => c.andThen fun L => L.dispatch env dev m k)
        (Call.ret L)).state = if .ealFileSimple ∈ ks then
          onSink (view L) fun f d => (f.prepareLogMessage env dev m d).state else view L := by
    intro ks
    induction ks with
    | nil => simp
    | cons j ks ih =>
      intro L h hks
      obtain ⟨hj, hks⟩ := List.nodup_cons.mp hks
      rw [Logger.foldl_dispatch_cons, ih _ (dispatch_does h env dev m).good hks,
        view_dispatch h]
      by_cases hfile : j = .ealFileSimple
      · subst hfile
        simp [hj]
      · simp [hfile, Ne.symm hfile]
  exact (hfold sinkKeys L h nodup_sinkKeys).trans (if_pos (mem_sinkKeys _))

/-! ### Sinks that come and go -/

lemma view_release (L : Logger) (old : Option AnySink) (dev : Device) :
    view (L.release old dev).state =
      ((view L).1, FileView.release (old.bind fileSink) dev L.world.disk) := by
  cases old with
  | none => rfl
  | some s => cases s <;> rfl

lemma view_erase (h : Good L) (k : LoggerSink) (dev : Device) :
    view (L.erase k dev).state =
      if k = .ealFileSimple then (none, release (view L).1 dev L.world.disk) else view L := by
  rw [Logger.erase, view_release]
  split
  · next hk =>
    subst hk
    rw [view_put_self]
    rfl
  · next hk =>
    rw [fileSink_map_of_good h hk, view_put_ne hk]
    rfl

lemma view_install (h : Good L) {c : Call (AnySink × World)} (hret : c.exit = .returned)
    (k : LoggerSink) (dev : Device) :
    view (L.install k c dev).state =
      if k = .ealFileSimple then
        (fileSink c.state.1, release (view L).1 dev c.state.2.disk)
      else ((view L).1, c.state.2.disk) := by
  have hinstall : (L.install k c dev).state =
      ((L.put k (some c.state.1) c.state.2).release (L.loggerSinkMap k) dev).state := by
    rw [Logger.install, Call.catchAll_state, Call.eq_ret hret]
    rfl
  rw [hinstall, view_release]
  split
  · next hk =>
    subst hk
    rw [view_put_self]
    rfl
  · next hk =>
    rw [fileSink_map_of_good h hk, view_put_ne hk]
    rfl

/-- **The projection.** -/
theorem view_exec (h : Good L) (o : Op × Device) : view (L.exec o).state = exec o (view L) := by
  obtain ⟨op, dev⟩ := o
  cases op with
  | writeLog env now stack msg lvl file lnumber func => exact view_internalLogRoutine h env dev _
  | initSyslogSink enabled minLvl T p => exact view_install h rfl _ dev
  | initConsoleSink enabled minLvl T p => exact view_install h rfl _ dev
  | initFileSink enabled minLvl T p path fl =>
    exact view_install h (SinkFile.new_exit dev L.world.disk T p enabled minLvl path fl) _ dev
  | setMsgTemplate k T =>
    refine (view_setter h k _).trans ?_
    cases k <;> rfl
  | setDatetimePattern k p =>
    refine (view_setter h k _).trans ?_
    cases k <;> rfl
  | setMinLvl k lvl =>
    refine (view_setter h k _).trans ?_
    cases k <;> rfl
  | setEnabled k b =>
    have hne : k ≠ .ealFileSimple →
        view (L.exec (.setEnabled k b, dev)).state = view L := fun hk =>
      view_atSink_ne h hk fun s w hs => setEnabled_disk hs b dev w
    cases k with
    | ealFileSimple =>
      exact view_atSink_self h (g := fun f d => (f.setEnabled b dev d).state) fun s w => rfl
    | ealConsole => exact hne (by simp)
    | ealSyslog => exact hne (by simp)
  | discardSink k =>
    have hdiscard : (L.exec (.discardSink k, dev)).state = (L.erase k dev).state :=
      congrArg Call.state (discard_eq L k dev)
    rw [hdiscard, view_erase h]
    cases k <;> rfl
  | isInitialized k => rfl
  | queueEmpty => rfl

lemma new_good (d : Disk) : Good (Logger.new d) :=
  ⟨by simp [Logger.new], by simp [Logger.new]⟩

/-- The destructor lets go of the file sink last. -/
lemma view_destroy (h : Good L) (dev : Device) :
    view (L.destroy dev).state = (none, release (view L).1 dev L.world.disk) := by
  have hconsole := (erase_does h (k := .ealConsole) dev).good
  have hsyslog := (erase_does hconsole (k := .ealSyslog) dev).good
  have hview : view ((L.erase .ealConsole dev).state.erase .ealSyslog dev).state = view L := by
    rw [view_erase hconsole, if_neg (by simp), view_erase h, if_neg (by simp)]
  have hdisk : ((L.erase .ealConsole dev).state.erase .ealSyslog dev).state.world.disk =
      L.world.disk := congrArg Prod.snd hview
  rw [destroy_eq h, view_erase hsyslog, if_pos rfl, hview, hdisk]

end Ealogger.FileView
