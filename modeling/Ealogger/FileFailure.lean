import Ealogger.Logger

/-!
Which failures of the log file reach the caller.

`open_file` and `write_message` catch what the stream throws. `close_file` does not, and by
the time there is a file to close the exception mask is on: through `set_enabled` the
exception reaches the caller, in the destructor of the sink it ends the program.
-/

namespace Ealogger.FileFailure

open Streams

/-- Every operation of a run returns, and so does the destruction of the `Logger`. -/
def NoEscape (L : Logger) (last : Device) : List (Op × Device) → Prop
  | [] => (L.destroy last).exit = .returned
  | o :: os => (L.exec o).exit = .returned ∧ NoEscape (L.exec o).state last os

/-- Whether the file sink has its log file open, and `none` while there is no file sink. -/
def track (t : Option Bool) (o : Op × Device) : Option Bool :=
  match o.1 with
  | .initFileSink enabled _ _ _ _ _ => some (enabled && o.2.openOk)
  | .setEnabled .ealFileSimple true => t.map fun isOpen => !isOpen && o.2.openOk
  | .discardSink .ealFileSimple => none
  | _ => t

/-- The operations that close a log file that is open. -/
def closing (t : Option Bool) : Op → Bool
  | .initFileSink .. => t == some true
  | .setEnabled .ealFileSimple true => t == some true
  | .discardSink .ealFileSimple => t == some true
  | _ => false

/-- The device accepts the flush and the close whenever an open log file is closed. -/
def CleanCloses (t : Option Bool) (last : Device) : List (Op × Device) → Prop
  | [] => t = some true → last.closes
  | o :: os => (closing t o.1 = true → o.2.closes) ∧ CleanCloses (track t o) last os

/-! ### The stream of one sink -/

/-- An open stream has its exception mask on. -/
def Masked (s : OFStream Char) : Prop := s.isOpen = true → s.mask = true

section SinkFile

variable {f : SinkFile} {dev : Device} {d : Disk}

lemma closeFile_returned (h : Masked f.fileStream) :
    (f.closeFile dev d).exit = .returned ↔ (f.fileStream.isOpen = true → dev.closes) := by
  rw [SinkFile.closeFile, SinkFile.onStream_exit]
  by_cases hopen : f.fileStream.isOpen = true
  · have hmask := h hopen
    have hopen' : (f.fileStream.flush dev.flush d).state.1.isOpen = true := by
      simpa [OFStream.isOpen] using hopen
    rw [if_pos hopen, Call.andThen_returned, OFStream.flush_returned_iff _ _ hmask,
      OFStream.close_returned_iff _ _ hopen' (by simpa using hmask)]
    simp [hopen, Device.closes]
  · simp [hopen]

lemma closeFile_masked (h : Masked f.fileStream) :
    Masked (f.closeFile dev d).state.1.fileStream := by
  simp only [SinkFile.closeFile, SinkFile.onStream, Call.map_state]
  split
  · refine Call.andThen_state (p := fun st : OFStream Char × Disk => Masked st.1) ?_
      fun st _ hst => ?_
    · intro hopen
      rw [OFStream.flush_mask]
      exact h (by simpa [OFStream.isOpen] using hopen)
    · simp [OFStream.isOpen] at hst
  · exact h

/-- A closed stream is open afterwards exactly if the device opens the file. -/
lemma openFile_isOpen (hopen : f.fileStream.isOpen = false) :
    (f.openFile dev d).state.1.fileStream.isOpen = dev.openOk := by
  cases hok : dev.openOk with
  | true =>
    obtain ⟨s, he, hs, -⟩ := SinkFile.openFile_spec (d := d) hopen hok
    simp [he, hs]
  | false =>
    simp only [SinkFile.openFile, SinkFile.onStream, Call.map_state, Call.catchAll_state, hopen,
      Bool.false_eq_true, if_false]
    let p : OFStream Char × Disk → Prop := fun st => st.1.isOpen = false
    refine Call.andThen_state (p := p) (Call.andThen_state (p := p) ?_ fun st hst => ?_) ?_
    · simpa [p, OFStream.openApp, hok, OFStream.isOpen] using hopen
    · split <;> exact hst
    · exact fun st hst => hst

lemma openFile_masked (h : Masked f.fileStream) :
    Masked (f.openFile dev d).state.1.fileStream := by
  cases hopen : f.fileStream.isOpen with
  | true => simpa [SinkFile.openFile, SinkFile.onStream, hopen] using h
  | false =>
    cases hok : dev.openOk with
    | true =>
      obtain ⟨s, he, -, hmask, -⟩ := SinkFile.openFile_spec (d := d) hopen hok
      intro _
      simpa [he] using hmask
    | false =>
      intro hs
      rw [openFile_isOpen hopen, hok] at hs
      exact absurd hs (by simp)

lemma new_masked (T p : Str) (b : Bool) (lvl : LogLevel) (path : Str) (fl : Bool) :
    Masked (SinkFile.new T p b lvl path fl dev d).state.1.fileStream := by
  unfold SinkFile.new
  simp only
  split
  · exact openFile_masked (by simp [Masked])
  · simp [Masked]

lemma new_isOpen (T p : Str) (b : Bool) (lvl : LogLevel) (path : Str) (fl : Bool) :
    (SinkFile.new T p b lvl path fl dev d).state.1.fileStream.isOpen = (b && dev.openOk) := by
  unfold SinkFile.new
  cases b
  · simp [Sink.new, Sink.fillConvPatterns]
  · exact openFile_isOpen rfl

lemma setEnabled_masked (h : Masked f.fileStream) (b : Bool) :
    Masked (f.setEnabled b dev d).state.1.fileStream := by
  unfold SinkFile.setEnabled SinkFile.configChanged
  split
  · exact closeFile_masked h
  · split
    · exact openFile_masked h
    · exact h

lemma setEnabled_returned (h : Masked f.fileStream) (b : Bool) :
    (f.setEnabled b dev d).exit = .returned ↔
      (b = true → f.fileStream.isOpen = true → dev.closes) := by
  unfold SinkFile.setEnabled SinkFile.configChanged
  cases b with
  | false => simp [Sink.setEnabled]
  | true =>
    cases hopen : f.fileStream.isOpen with
    | false => simp [Sink.setEnabled]
    | true => simp [Sink.setEnabled, closeFile_returned (f := { f with enabled := true }) h, hopen]

lemma setEnabled_isOpen (b : Bool)
    (hclose : b = true → f.fileStream.isOpen = true → dev.closes) :
    (f.setEnabled b dev d).state.1.fileStream.isOpen =
      if b then !f.fileStream.isOpen && dev.openOk else f.fileStream.isOpen := by
  unfold SinkFile.setEnabled SinkFile.configChanged
  cases b with
  | false => simp [Sink.setEnabled]
  | true =>
    cases hopen : f.fileStream.isOpen with
    | false => simpa [Sink.setEnabled] using openFile_isOpen (f := { f with enabled := true }) hopen
    | true =>
      simpa [Sink.setEnabled] using
        SinkFile.closeFile_isOpen (f := { f with enabled := true }) hopen (hclose rfl hopen)

end SinkFile

/-! ### The sinks of a `Logger` -/

/-- The key under which an object of this kind is stored. -/
def keyOf : AnySink → LoggerSink
  | .console _ => .ealConsole
  | .syslog _ => .ealSyslog
  | .file _ => .ealFileSimple

def isOpen : AnySink → Bool
  | .file f => f.fileStream.isOpen
  | _ => false

def SinkMasked : AnySink → Prop
  | .file f => Masked f.fileStream
  | _ => True

/-- Every object is stored under its own key, and an open log file has its mask on. -/
structure Good (L : Logger) : Prop where
  masked : ∀ k s, L.loggerSinkMap k = some s → SinkMasked s
  sorted : ∀ k s, L.loggerSinkMap k = some s → keyOf s = k

def opened (L : Logger) : Option Bool := (L.loggerSinkMap .ealFileSimple).map isOpen

/-- A call that returns if `needs` holds, and then leaves the log file as `t` says. -/
structure Does (c : Call Logger) (needs : Prop) (t : Option Bool) : Prop where
  good : Good c.state
  returned : c.exit = .returned ↔ needs
  opened : needs → opened c.state = t

lemma Does.congr {c : Call Logger} {n n' : Prop} {t t' : Option Bool} (h : Does c n t)
    (hn : n' ↔ n) (ht : t' = t) : Does c n' t' :=
  ⟨h.good, h.returned.trans hn.symm, fun hn' => (h.opened (hn.mp hn')).trans ht.symm⟩

variable {L : Logger} {k : LoggerSink}

lemma put_good (h : Good L) {s : Option AnySink} (w : World)
    (hs : ∀ t, s = some t → SinkMasked t ∧ keyOf t = k) : Good (L.put k s w) := by
  have hput : ∀ j t, (L.put k s w).loggerSinkMap j = some t →
      (j = k ∧ s = some t) ∨ L.loggerSinkMap j = some t := by
    intro j t ht
    by_cases hj : j = k
    · exact Or.inl ⟨hj, by simpa [Logger.put, hj] using ht⟩
    · exact Or.inr (by simpa [Logger.put, hj] using ht)
  constructor
  · intro j t ht
    rcases hput j t ht with ⟨-, hst⟩ | hL
    · exact (hs t hst).1
    · exact h.masked j t hL
  · intro j t ht
    rcases hput j t ht with ⟨rfl, hst⟩ | hL
    · exact (hs t hst).2
    · exact h.sorted j t hL

lemma put_opened (s : Option AnySink) (w : World) :
    opened (L.put k s w) = if k = .ealFileSimple then s.map isOpen else opened L := by
  unfold opened Logger.put
  split
  · next hk => subst hk; simp
  · next hk => simp [Function.update_of_ne (Ne.symm hk)]

/-- A sink whose stream has not been opened, closed or unmasked. -/
structure SameStream (s s' : AnySink) : Prop where
  key : keyOf s' = keyOf s
  isOpen : isOpen s' = isOpen s
  masked : SinkMasked s → SinkMasked s'

lemma mapBase_same (g : Sink → Sink) (s : AnySink) : SameStream s (s.mapBase g) := by
  cases s <;> exact ⟨rfl, rfl, id⟩

lemma writeMessage_same (dev : Device) (msg : Str) (s : AnySink) (w : World) :
    SameStream s (s.writeMessage dev msg w).state.1 := by
  cases s with
  | console s => exact ⟨rfl, rfl, id⟩
  | syslog s => exact ⟨rfl, rfl, id⟩
  | file f =>
    obtain ⟨hfile, hmask⟩ := SinkFile.writeMessage_stream f dev w.disk msg
    refine ⟨rfl, ?_, fun h => ?_⟩
    · simp [AnySink.writeMessage, FileFailure.isOpen, OFStream.isOpen, hfile]
    · simpa [AnySink.writeMessage, SinkMasked, Masked, OFStream.isOpen, hfile, hmask] using h

lemma prepareLogMessage_same (env : Env) (dev : Device) (m : LogMessage) (s : AnySink)
    (w : World) : SameStream s (s.prepareLogMessage env dev m w).state.1 := by
  unfold AnySink.prepareLogMessage
  split
  · exact writeMessage_same dev _ s w
  · exact ⟨rfl, rfl, id⟩

/-- Putting back a sink whose stream is as it was. -/
lemma put_same (h : Good L) {s s' : AnySink} (hs : L.loggerSinkMap k = some s)
    (hsame : SameStream s s') (w : World) :
    Good (L.put k (some s') w) ∧ opened (L.put k (some s') w) = opened L := by
  constructor
  · refine put_good h w fun t ht => ?_
    obtain rfl := Option.some.inj ht
    exact ⟨hsame.masked (h.masked k s hs), hsame.key.trans (h.sorted k s hs)⟩
  · rw [put_opened]
    split
    · next hk => subst hk; simp [opened, hs, hsame.isOpen]
    · rfl

/-! ### Each operation -/

lemma dispatch_does (h : Good L) (env : Env) (dev : Device) (m : LogMessage) :
    Does (L.dispatch env dev m k) True (opened L) := by
  have hput : Good (L.dispatch env dev m k).state ∧
      opened (L.dispatch env dev m k).state = opened L := by
    cases hk : L.loggerSinkMap k with
    | none => simpa [Logger.dispatch, hk] using h
    | some s =>
      obtain ⟨hgood, hopened⟩ :=
        put_same h hk (prepareLogMessage_same env dev m s L.world)
          (s.prepareLogMessage env dev m L.world).state.2
      simp only [Logger.dispatch, hk, Call.map_state]
      exact ⟨⟨hgood.masked, hgood.sorted⟩, hopened⟩
  exact ⟨hput.1, by simp, fun _ => hput.2⟩

lemma internalLogRoutine_does (h : Good L) (env : Env) (dev : Device) (m : LogMessage) :
    Does (L.internalLogRoutine env dev m) True (opened L) := by
  have hfold : Good (L.internalLogRoutine env dev m).state ∧
      opened (L.internalLogRoutine env dev m).state = opened L := by
    unfold Logger.internalLogRoutine
    generalize sinkKeys = ks
    induction ks generalizing L with
    | nil => exact ⟨h, rfl⟩
    | cons k ks ih =>
      have hstep := dispatch_does (k := k) h env dev m
      rw [Logger.foldl_dispatch_cons, ← hstep.opened trivial]
      exact ih hstep.good
  exact ⟨hfold.1, by simp [Logger.internalLogRoutine_exit], fun _ => hfold.2⟩

/-- The destruction of a sink that has been taken out of the map. -/
lemma destroy_returned {s : AnySink} (h : SinkMasked s) (dev : Device) (w : World) :
    (s.destroy dev w).exit = .returned ↔ (isOpen s = true → dev.closes) := by
  cases s with
  | console s => simp [AnySink.destroy, isOpen]
  | syslog s => simp [AnySink.destroy, isOpen]
  | file f =>
    simp only [AnySink.destroy, Call.map_exit, SinkFile.destroy, Call.noexcept_returned]
    exact closeFile_returned h

lemma destroy_ne_threw (s : AnySink) (dev : Device) (w : World) :
    (s.destroy dev w).exit ≠ .threw := by
  cases s with
  | console s => simp [AnySink.destroy]
  | syslog s => simp [AnySink.destroy]
  | file f => exact Call.noexcept_ne_threw (f.closeFile dev w.disk)

lemma release_ne_threw (old : Option AnySink) (dev : Device) :
    (L.release old dev).exit ≠ .threw := by
  cases old with
  | none => simp [Logger.release]
  | some s => exact destroy_ne_threw s dev L.world

/-- What was stored under a key is destroyed: only the file sink can have a file to close. -/
lemma release_returned (h : Good L) (L' : Logger) (dev : Device) :
    (L'.release (L.loggerSinkMap k) dev).exit = .returned ↔
      (k = .ealFileSimple → opened L = some true → dev.closes) := by
  cases hs : L.loggerSinkMap k with
  | none =>
    simp only [Logger.release, Call.ret_exit, true_iff]
    rintro rfl hopen
    simp [opened, hs] at hopen
  | some s =>
    rw [Logger.release, Call.map_exit, destroy_returned (h.masked k s hs)]
    have hkey := h.sorted k s hs
    by_cases hk : k = .ealFileSimple
    · subst hk
      simp [opened, hs]
    · have hclosed : isOpen s = false := by
        cases s with
        | file f => exact absurd hkey.symm hk
        | _ => rfl
      simp [hk, hclosed]

lemma release_good (h : Good L) (old : Option AnySink) (dev : Device) :
    Good (L.release old dev).state :=
  ⟨fun j s hs => h.masked j s (by simpa using hs), fun j s hs => h.sorted j s (by simpa using hs)⟩

lemma release_opened (old : Option AnySink) (dev : Device) :
    opened (L.release old dev).state = opened L := by
  simp [opened]

lemma erase_does (h : Good L) (dev : Device) :
    Does (L.erase k dev) (k = .ealFileSimple → opened L = some true → dev.closes)
      (if k = .ealFileSimple then none else opened L) := by
  refine ⟨release_good (put_good h _ (by simp)) _ _, release_returned h _ dev, fun _ => ?_⟩
  rw [Logger.erase, release_opened, put_opened]
  rfl

/-- There is nothing to catch: the destructor ends the program instead. -/
lemma discard_eq (L : Logger) (k : LoggerSink) (dev : Device) : L.discard k dev = L.erase k dev :=
  Call.catchAll_of_ne_threw (release_ne_threw _ _)

lemma install_does (h : Good L) {c : Call (AnySink × World)} (hret : c.exit = .returned)
    (hmasked : SinkMasked c.state.1) (hkey : keyOf c.state.1 = k) (dev : Device) :
    Does (L.install k c dev) (k = .ealFileSimple → opened L = some true → dev.closes)
      (if k = .ealFileSimple then some (isOpen c.state.1) else opened L) := by
  have hnew : L.install k c dev =
      (L.put k (some c.state.1) c.state.2).release (L.loggerSinkMap k) dev := by
    rw [Logger.install, Call.eq_ret hret]
    exact Call.catchAll_of_ne_threw (release_ne_threw _ _)
  rw [hnew]
  refine ⟨release_good (put_good h _ fun t ht => ?_) _ _, release_returned h _ dev, fun _ => ?_⟩
  · obtain rfl := Option.some.inj ht
    exact ⟨hmasked, hkey⟩
  · rw [release_opened, put_opened]
    rfl

/-- A setter that leaves the stream alone. -/
lemma atSink_mapBase_does (h : Good L) (g : Sink → Sink) :
    Does (L.atSink k fun s w => .ret (s.mapBase g, w)) True (opened L) := by
  cases hs : L.loggerSinkMap k with
  | none =>
    rw [Logger.atSink_none hs]
    exact ⟨h, by simp, fun _ => rfl⟩
  | some s =>
    obtain ⟨hgood, hopened⟩ := put_same h hs (mapBase_same g s) L.world
    rw [Logger.atSink_some hs]
    exact ⟨hgood, by simp, fun _ => hopened⟩

lemma atSink_setEnabled_file (h : Good L) {f : SinkFile}
    (hs : L.loggerSinkMap .ealFileSimple = some (.file f)) (b : Bool) (dev : Device) :
    Does (L.atSink .ealFileSimple fun s w => s.setEnabled b dev w)
      (b = true → f.fileStream.isOpen = true → dev.closes)
      (some (if b then !f.fileStream.isOpen && dev.openOk else f.fileStream.isOpen)) := by
  have hmasked : Masked f.fileStream := h.masked _ _ hs
  rw [Logger.atSink_some hs]
  refine ⟨put_good h _ fun t ht => ?_, setEnabled_returned hmasked b, fun hn => ?_⟩
  · obtain rfl := Option.some.inj ht
    exact ⟨setEnabled_masked hmasked b, rfl⟩
  · rw [Call.map_state, put_opened, if_pos rfl, Option.map_some]
    exact congrArg some (setEnabled_isOpen b hn)

lemma atSink_setEnabled_does (h : Good L) (b : Bool) (dev : Device) :
    Does (L.atSink k fun s w => s.setEnabled b dev w)
      (closing (opened L) (.setEnabled k b) = true → dev.closes)
      (track (opened L) (.setEnabled k b, dev)) := by
  cases hs : L.loggerSinkMap k with
  | none =>
    have hclosing : closing (opened L) (.setEnabled k b) = false := by
      cases k <;> cases b <;> simp [closing, opened, hs]
    have htrack : track (opened L) (.setEnabled k b, dev) = opened L := by
      cases k <;> cases b <;> simp [track, opened, hs]
    rw [Logger.atSink_none hs]
    exact ⟨h, by simp [hclosing], fun _ => htrack.symm⟩
  | some s =>
    have hkey := h.sorted k s hs
    cases s with
    | file f =>
      obtain rfl : k = .ealFileSimple := hkey.symm
      have hopened : opened L = some f.fileStream.isOpen := by
        rw [opened, hs]
        rfl
      refine (atSink_setEnabled_file h hs b dev).congr ?_ ?_
      · rw [hopened]
        cases b <;> simp [closing]
      · rw [hopened]
        cases b <;> simp [track]
    | console s =>
      obtain rfl : k = .ealConsole := hkey.symm
      have hbase := atSink_mapBase_does h (k := .ealConsole) (·.setEnabled b)
      rw [Logger.atSink_some hs] at hbase ⊢
      exact hbase.congr (by simp [closing]) rfl
    | syslog s =>
      obtain rfl : k = .ealSyslog := hkey.symm
      have hbase := atSink_mapBase_does h (k := .ealSyslog) (·.setEnabled b)
      rw [Logger.atSink_some hs] at hbase ⊢
      exact hbase.congr (by simp [closing]) rfl

/-- **One operation.** -/
theorem exec_does (h : Good L) (o : Op × Device) :
    Does (L.exec o) (closing (opened L) o.1 = true → o.2.closes) (track (opened L) o) := by
  obtain ⟨op, dev⟩ := o
  cases op with
  | writeLog env now stack msg lvl file lnumber func =>
    exact (internalLogRoutine_does h env dev _).congr (by simp [closing]) rfl
  | initSyslogSink enabled minLvl T p =>
    exact (install_does h (k := .ealSyslog)
      (c := .ret (.syslog (Sink.new T p enabled minLvl), L.world)) rfl trivial rfl dev).congr
      (by simp [closing]) rfl
  | initConsoleSink enabled minLvl T p =>
    exact (install_does h (k := .ealConsole)
      (c := .ret (.console (Sink.new T p enabled minLvl), L.world)) rfl trivial rfl dev).congr
      (by simp [closing]) rfl
  | initFileSink enabled minLvl T p logfile fl =>
    let c := (SinkFile.new T p enabled minLvl logfile fl dev L.world.disk).map fun st =>
      (AnySink.file st.1, { L.world with disk := st.2 })
    have hmasked : SinkMasked c.state.1 := new_masked T p enabled minLvl logfile fl
    have hnew := install_does h (k := .ealFileSimple) (c := c)
      (SinkFile.new_exit dev L.world.disk T p enabled minLvl logfile fl) hmasked rfl dev
    refine hnew.congr (by simp [closing]) ?_
    exact congrArg some (new_isOpen T p enabled minLvl logfile fl).symm
  | setMsgTemplate k T =>
    exact (atSink_mapBase_does h (·.setMsgTemplate T)).congr (by simp [closing]) rfl
  | setDatetimePattern k p =>
    exact (atSink_mapBase_does h (·.setDatetimePattern p)).congr (by simp [closing]) rfl
  | setEnabled k b => exact atSink_setEnabled_does h b dev
  | setMinLvl k lvl =>
    exact (atSink_mapBase_does h (·.setMinLvl lvl)).congr (by simp [closing]) rfl
  | discardSink k =>
    refine (discard_eq L k dev ▸ erase_does h (k := k) dev).congr ?_ ?_
    · cases k <;> simp [closing]
    · cases k <;> rfl
  | isInitialized k => exact ⟨⟨h.masked, h.sorted⟩, by simp [Logger.exec, closing], fun _ => rfl⟩
  | queueEmpty => exact ⟨⟨h.masked, h.sorted⟩, by simp [Logger.exec, closing], fun _ => rfl⟩

/-! ### Runs -/

/-- The destruction of the `Logger`, which lets go of one sink after the other: only the last
of the three may have a file to close. -/
lemma destroy_eq (h : Good L) (dev : Device) :
    L.destroy dev = ((L.erase .ealConsole dev).state.erase .ealSyslog dev).state.erase
      .ealFileSimple dev := by
  have hconsole := erase_does h (k := .ealConsole) dev
  have hsyslog := erase_does hconsole.good (k := .ealSyslog) dev
  have hret₁ := Call.eq_ret (hconsole.returned.mpr fun hk => absurd hk (by simp))
  have hret₂ := Call.eq_ret (hsyslog.returned.mpr fun hk => absurd hk (by simp))
  rw [Logger.destroy, sinkKeys, List.foldl_cons, Call.ret_andThen, hret₁, List.foldl_cons,
    Call.ret_andThen, hret₂]
  rfl

lemma destroy_logger_returned (h : Good L) (dev : Device) :
    (L.destroy dev).exit = .returned ↔ (opened L = some true → dev.closes) := by
  have hconsole := erase_does h (k := .ealConsole) dev
  have hsyslog := erase_does hconsole.good (k := .ealSyslog) dev
  have hfile := erase_does hsyslog.good (k := .ealFileSimple) dev
  have hopened : opened ((L.erase .ealConsole dev).state.erase .ealSyslog dev).state =
      opened L :=
    (hsyslog.opened fun hk => absurd hk (by simp)).trans
      (hconsole.opened fun hk => absurd hk (by simp))
  rw [destroy_eq h, hfile.returned, hopened]
  simp

lemma noEscape_iff_of_good (h : Good L) (ops : List (Op × Device)) (last : Device) :
    NoEscape L last ops ↔ CleanCloses (opened L) last ops := by
  induction ops generalizing L with
  | nil => exact destroy_logger_returned h last
  | cons o os ih =>
    have hdoes := exec_does h o
    rw [NoEscape, CleanCloses, hdoes.returned]
    refine and_congr_right fun hneeds => ?_
    rw [ih hdoes.good, hdoes.opened hneeds]

/-- **When no failure escapes.** In every run on a new `Logger`, whatever the device answers,
every operation returns and the destruction of the sinks ends without an exception, if and
only if the flush and the close succeed each time a log file that is open is closed. -/
theorem noEscape_iff (d : Disk) (ops : List (Op × Device)) (last : Device) :
    NoEscape (Logger.new d) last ops ↔ CleanCloses none last ops :=
  noEscape_iff_of_good ⟨by simp [Logger.new], by simp [Logger.new]⟩ ops last

/-- Enabling an enabled sink closes its file; a flush that fails there throws. -/
theorem noEscape_fails_on_flush :
    ¬ ∀ (d : Disk) (ops : List (Op × Device)) (last : Device),
      NoEscape (Logger.new d) last ops := by
  intro h
  have hrun := h Disk.empty
    [(.initFileSink true .ealDebug "%m".toList [] "a.log".toList true, Device.willing),
      (.setEnabled .ealFileSimple true, { Device.willing with flush := ⟨false, 0⟩ })]
    Device.willing
  exact absurd hrun.2.1 (by decide)

end Ealogger.FileFailure
