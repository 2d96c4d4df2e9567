import Ealogger.SinkFile

/-!
Enabling and disabling a file sink, for every sequence of toggles and messages.

`config_changed` is meant to keep the stream open exactly while the sink is enabled. It
closes the stream of a sink that is enabled again while it is open, and leaves the stream of
a sink that is disabled open. The two therefore agree along a run exactly when no toggle
comes after the sink has been enabled.
-/

namespace Ealogger.FileToggle

open Streams

abbrev St := SinkFile × Disk

inductive Op
  | setEnabled (b : Bool)
  | log (env : Env) (m : LogMessage)

def step (st : St) (o : Op × Device) : St :=
  match o.1 with
  | .setEnabled b => (st.1.setEnabled b o.2 st.2).state
  | .log env m => (st.1.prepareLogMessage env o.2 m st.2).state

def run (st : St) (ops : List (Op × Device)) : St := ops.foldl step st

/-- The strings an operation hands to `write_message`. -/
def passes (st : St) : Op → List Str
  | .setEnabled _ => []
  | .log env m => (st.1.toSink.prepareLogMessage env m).toList

/-- The strings handed to `write_message` along a run. -/
def passed (st : St) : List (Op × Device) → List Str
  | [] => []
  | o :: os => passes st o.1 ++ passed (step st o) os

/-- The arguments of the `set_enabled` calls. -/
def toggles (ops : List (Op × Device)) : List Bool :=
  ops.filterMap fun o => match o.1 with
    | .setEnabled b => some b
    | .log _ _ => none

def lines (ms : List Str) : Str := ms.flatMap (· ++ ['\n'])

/-- What the log file holds, followed by what the stream has still to write to it. -/
def logText (st : St) : Str := st.2.contents st.1.logFile ++ st.1.fileStream.buffer

/-- After the operations the stream is open exactly if the sink is enabled, and, unless a
write was refused, every message let through has been appended to the log file. -/
structure InSync (st : St) (ops : List (Op × Device)) : Prop where
  open_eq : (run st ops).1.fileStream.isOpen = (run st ops).1.enabled
  logged : (∀ o ∈ ops, o.2.writes) → logText (run st ops) = logText st ++ lines (passed st ops)

@[simp] lemma run_nil (st : St) : run st [] = st := rfl
@[simp] lemma run_cons (st : St) (o : Op × Device) (os : List (Op × Device)) :
    run st (o :: os) = run (step st o) os := rfl

@[simp] lemma lines_append (a b : List Str) : lines (a ++ b) = lines a ++ lines b := by
  simp [lines]

/-! ### The stream and the flag -/

lemma step_log_enabled (st : St) (env : Env) (m : LogMessage) (dev : Device) :
    (step st (.log env m, dev)).1.enabled = st.1.enabled := by
  simp [step]

lemma step_log_file (st : St) (env : Env) (m : LogMessage) (dev : Device) :
    (step st (.log env m, dev)).1.fileStream.file = st.1.fileStream.file := by
  simp only [step, SinkFile.prepareLogMessage]
  split
  · exact (SinkFile.writeMessage_stream _ _ _ _).1
  · rfl

lemma step_setEnabled_enabled (st : St) (b : Bool) (dev : Device) :
    (step st (.setEnabled b, dev)).1.enabled = b := by
  simp [step, Sink.setEnabled]

/-- `config_changed` toggles the stream of a sink that is enabled and leaves it alone when
the sink is disabled. -/
lemma step_setEnabled_isOpen (st : St) (b : Bool) {dev : Device} (hok : dev.openOk = true)
    (hcl : dev.closes) : (step st (.setEnabled b, dev)).1.fileStream.isOpen =
      if b then !st.1.fileStream.isOpen else st.1.fileStream.isOpen := by
  cases b with
  | false => simp [step, SinkFile.setEnabled, SinkFile.configChanged, Sink.setEnabled]
  | true =>
    cases hopen : st.1.fileStream.isOpen with
    | true =>
      simp only [step, SinkFile.setEnabled, SinkFile.configChanged, Sink.setEnabled, hopen,
        Bool.and_self, if_true, Bool.not_true]
      exact SinkFile.closeFile_isOpen hopen hcl
    | false =>
      obtain ⟨s, he, hs, -⟩ := SinkFile.openFile_spec
        (f := { st.1 with toSink := st.1.toSink.setEnabled true }) (d := st.2) hopen hok
      simp only [Sink.setEnabled] at he
      simp [step, SinkFile.setEnabled, SinkFile.configChanged, Sink.setEnabled, hopen, he, hs]

lemma forall_take_cons {p : St → Prop} (st : St) (o : Op × Device) (os : List (Op × Device)) :
    (∀ n, p (run st ((o :: os).take n))) ↔ p st ∧ ∀ n, p (run (step st o) (os.take n)) := by
  constructor
  · intro h
    exact ⟨by simpa using h 0, fun n => by simpa using h (n + 1)⟩
  · rintro ⟨h0, h⟩ n
    cases n with
    | zero => simpa using h0
    | succ n => simpa using h n

/-- The flag and the stream agree along the whole run exactly if the sink was disabled
before every toggle. -/
theorem forall_open_eq_iff (st : St) (ops : List (Op × Device))
    (hst : st.1.fileStream.isOpen = st.1.enabled)
    (hops : ∀ o ∈ ops, o.2.openOk = true ∧ o.2.closes) :
    (∀ n, (run st (ops.take n)).1.fileStream.isOpen = (run st (ops.take n)).1.enabled) ↔
      ∀ b ∈ (st.1.enabled :: toggles ops).dropLast, b = false := by
  induction ops generalizing st with
  | nil => simpa [toggles] using hst
  | cons o os ih =>
    obtain ⟨op, dev⟩ := o
    obtain ⟨hok, hcl⟩ := hops _ List.mem_cons_self
    have hos : ∀ o ∈ os, o.2.openOk = true ∧ o.2.closes := fun o ho => hops o (by simp [ho])
    rw [forall_take_cons (p := fun st => st.1.fileStream.isOpen = st.1.enabled), and_iff_right hst]
    cases op with
    | log env m =>
      have hopen : (step st (.log env m, dev)).1.fileStream.isOpen = st.1.enabled := by
        rw [← hst]; unfold OFStream.isOpen; rw [step_log_file]
      rw [ih _ (hopen.trans (step_log_enabled st env m dev).symm) hos, step_log_enabled]
      rfl
    | setEnabled b =>
      have hen := step_setEnabled_enabled st b dev
      have hopen := step_setEnabled_isOpen st b hok hcl
      have htog : toggles ((.setEnabled b, dev) :: os) = b :: toggles os := rfl
      rw [htog, List.dropLast_cons_of_ne_nil (List.cons_ne_nil _ _), List.forall_mem_cons]
      cases he : st.1.enabled with
      | true =>
        -- the stream is open: this very toggle separates the two
        rw [hst, he] at hopen
        refine iff_of_false (fun h => ?_) (fun h => absurd h.1 (by simp))
        have h0 := h 0
        rw [List.take_zero, run_nil, hopen, hen] at h0
        cases b <;> simp at h0
      | false =>
        rw [hst, he] at hopen
        rw [ih _ (by rw [hopen, hen]; cases b <;> rfl) hos, hen]
        simp

/-! ### What reaches the log file -/

/-- An open stream is in a good state and on the file that the log file's path names; a
closed one has nothing left to write. -/
structure Attached (st : St) : Prop where
  names : ∀ i, st.1.fileStream.file = some i → st.2.names st.1.logFile = some i
  good : st.1.fileStream.isOpen = true → st.1.fileStream.fail = false
  empty : st.1.fileStream.isOpen = false → st.1.fileStream.buffer = []

lemma logText_open {st : St} (h : Attached st) {i : ℕ} (hi : st.1.fileStream.file = some i) :
    logText st = st.1.fileStream.intake st.2 i := by
  simp [logText, Streams.Disk.contents, h.names i hi, OFStream.intake_self hi]

lemma step_log_attached {st : St} (h : Attached st)
    (hst : st.1.fileStream.isOpen = st.1.enabled) (env : Env) (m : LogMessage) {dev : Device}
    (hdev : dev.writes) :
    Attached (step st (.log env m, dev)) ∧
      logText (step st (.log env m, dev)) = logText st ++ lines (passes st (.log env m)) := by
  simp only [step, SinkFile.prepareLogMessage, passes]
  cases hp : st.1.toSink.prepareLogMessage env m with
  | none => exact ⟨h, by simp [Call.ret, lines]⟩
  | some msg =>
    -- a message that gets here has found the sink enabled, hence the stream open
    have hen : st.1.enabled = true := by
      by_contra hne
      simp [Sink.prepareLogMessage, hne] at hp
    have hopen : st.1.fileStream.isOpen = true := hst.trans hen
    obtain ⟨i, hi⟩ := Option.isSome_iff_exists.mp hopen
    obtain ⟨s, d', he, ht, -⟩ :=
      SinkFile.writeMessage_takes (d := st.2) hopen (h.good hopen) (hdev.accepts _) msg
    simp only [he, Call.ret_state]
    have hatt : Attached ({ st.1 with fileStream := s }, d') := by
      refine ⟨fun j hj => ?_, fun _ => ht.fail.trans (h.good hopen), fun hc => ?_⟩
      · have hnames : d'.names = st.2.names := congrArg Directory.names ht.dir
        rw [hnames]
        exact h.names j (ht.file.symm.trans hj)
      · exact absurd hopen (by rw [← OFStream.isOpen_eq ht.file, hc]; simp)
    refine ⟨hatt, ?_⟩
    rw [logText_open hatt (ht.file.trans hi), logText_open h hi, ht.intake, if_pos hi]
    simp [lines]

lemma step_setEnabled_attached {st : St} (h : Attached st)
    (hclosed : st.1.fileStream.isOpen = false) (b : Bool) {dev : Device}
    (hok : dev.openOk = true) :
    Attached (step st (.setEnabled b, dev)) ∧
      logText (step st (.setEnabled b, dev)) = logText st := by
  cases b with
  | false =>
    simp only [step, SinkFile.setEnabled, SinkFile.configChanged, Sink.setEnabled,
      Bool.false_and, Bool.false_eq_true, if_false, Call.ret_state]
    exact ⟨⟨h.names, h.good, h.empty⟩, rfl⟩
  | true =>
    obtain ⟨s, he, hopen, -, hfile, hfail, hbuf⟩ := SinkFile.openFile_spec
      (f := { st.1 with toSink := st.1.toSink.setEnabled true }) (d := st.2) hclosed hok
    have hstep : step st (.setEnabled true, dev) =
        ({ st.1 with toSink := st.1.toSink.setEnabled true, fileStream := s },
          st.2.create st.1.logFile) := by
      simp only [step, SinkFile.setEnabled, SinkFile.configChanged, hclosed, he]
      simp [Sink.setEnabled]
    rw [hstep]
    refine ⟨⟨fun i hi => hfile.symm.trans hi, fun _ => hfail, fun hc => ?_⟩, ?_⟩
    · simp [hopen] at hc
    · simp only [logText, Disk.create_contents, hbuf, h.empty hclosed]

/-- Along a run that toggles only a disabled sink, with all writes accepted, the log file
takes in every message let through, in order. -/
theorem logged_of_toggles (st : St) (ops : List (Op × Device)) (h : Attached st)
    (hst : st.1.fileStream.isOpen = st.1.enabled)
    (hops : ∀ o ∈ ops, o.2.openOk = true ∧ o.2.closes) (hwrites : ∀ o ∈ ops, o.2.writes)
    (htog : ∀ b ∈ (st.1.enabled :: toggles ops).dropLast, b = false) :
    logText (run st ops) = logText st ++ lines (passed st ops) := by
  induction ops generalizing st with
  | nil => simp [passed, lines]
  | cons o os ih =>
    have hall := (forall_open_eq_iff st (o :: os) hst hops).mpr htog
    rw [forall_take_cons (p := fun st => st.1.fileStream.isOpen = st.1.enabled)] at hall
    have hos : ∀ o ∈ os, o.2.openOk = true ∧ o.2.closes := fun o ho => hops o (by simp [ho])
    have hst' := hall.2 0
    rw [List.take_zero, run_nil] at hst'
    have htog' := (forall_open_eq_iff _ os hst' hos).mp hall.2
    obtain ⟨op, dev⟩ := o
    have hstep : Attached (step st (op, dev)) ∧
        logText (step st (op, dev)) = logText st ++ lines (passes st op) := by
      cases op with
      | log env m => exact step_log_attached h hst env m (hwrites _ List.mem_cons_self)
      | setEnabled b =>
        have hdis : st.1.enabled = false := by
          refine htog _ ?_
          rw [show toggles ((.setEnabled b, dev) :: os) = b :: toggles os from rfl]
          simp
        obtain ⟨hatt, htext⟩ := step_setEnabled_attached h (hst.trans hdis) b
          (hops _ List.mem_cons_self).1
        exact ⟨hatt, by simpa [passes, lines] using htext⟩
    rw [run_cons, ih _ hstep.1 hst' hos (fun o ho => hwrites o (by simp [ho])) htog', hstep.2]
    simp [passed]

/-- A new sink: its stream follows the flag if the file can be opened. -/
lemma new_attached (T p : Str) (enabled : Bool) (lvl : LogLevel) (path : Str) (fl : Bool)
    {dev : Device} (d : Disk) (hdev : dev.openOk = true) :
    Attached (SinkFile.new T p enabled lvl path fl dev d).state ∧
      (SinkFile.new T p enabled lvl path fl dev d).state.1.fileStream.isOpen = enabled := by
  cases enabled with
  | false =>
    have hnew : SinkFile.new T p false lvl path fl dev d =
        .ret (⟨Sink.new T p false lvl, path, fl, .closed⟩, d) := rfl
    rw [hnew]
    exact ⟨⟨by simp [OFStream.closed], by simp, fun _ => rfl⟩, rfl⟩
  | true =>
    obtain ⟨s, he, hopen, -, hfile, hfail, -⟩ := SinkFile.openFile_spec
      (f := ⟨Sink.new T p true lvl, path, fl, .closed⟩) (d := d) rfl hdev
    have hnew : SinkFile.new T p true lvl path fl dev d =
        .ret (⟨Sink.new T p true lvl, path, fl, s⟩, d.create path) := by
      rw [SinkFile.new]
      exact he
    rw [hnew]
    refine ⟨⟨fun i hi => hfile.symm.trans hi, fun _ => hfail, fun hc => ?_⟩, hopen⟩
    simp [hopen] at hc

/-- **When the stream follows the flag.** Along every run of toggles and messages on a new
file sink, the stream is open exactly while the sink is enabled and every message let
through is appended to the log file, if and only if `true` is at most the last of the values
the flag takes: no toggle ever meets an enabled sink. -/
theorem inSync_iff (T p : Str) (enabled : Bool) (lvl : LogLevel) (path : Str) (fl : Bool)
    (dev : Device) (d : Disk) (ops : List (Op × Device)) (hdev : dev.openOk = true)
    (hops : ∀ o ∈ ops, o.2.openOk = true ∧ o.2.closes) :
    (∀ n, InSync (SinkFile.new T p enabled lvl path fl dev d).state (ops.take n)) ↔
      ∀ b ∈ (enabled :: toggles ops).dropLast, b = false := by
  obtain ⟨hatt, hopen⟩ := new_attached T p enabled lvl path fl d hdev
  have hen : (SinkFile.new T p enabled lvl path fl dev d).state.1.enabled = enabled := by
    rw [SinkFile.new_toSink]
    rfl
  generalize (SinkFile.new T p enabled lvl path fl dev d).state = st at hatt hopen hen ⊢
  have hst : st.1.fileStream.isOpen = st.1.enabled := hopen.trans hen.symm
  have hiff := forall_open_eq_iff st ops hst hops
  rw [hen] at hiff
  refine ⟨fun h => hiff.mp fun n => (h n).open_eq, fun htog n => ⟨hiff.mpr htog n, fun hw => ?_⟩⟩
  have hops' : ∀ o ∈ ops.take n, o.2.openOk = true ∧ o.2.closes :=
    fun o ho => hops o (List.mem_of_mem_take ho)
  refine logged_of_toggles st (ops.take n) hatt hst hops' hw ?_
  rw [← forall_open_eq_iff st (ops.take n) hst hops']
  intro k
  rw [List.take_take]
  exact hiff.mpr htog _

theorem inSync_enabled_once :
    InSync (SinkFile.new "%m".toList [] false .ealDebug "a.log".toList true Device.willing
        Disk.empty).state
      ([(.setEnabled false, Device.willing), (.setEnabled true, Device.willing),
        (.log Env.bare
          (LogMessage.build 0 [] "hello".toList .ealInfo [] 0 []), Device.willing)].take 3) :=
  (inSync_iff _ _ _ _ _ _ _ _ _ rfl (by simp [Device.closes, Device.willing])).mpr
    (by decide) 3

/-- Enabling an enabled sink closes its stream, and the next message is dropped. -/
theorem inSync_fails_on_reenable :
    ¬ ∀ (T p : Str) (enabled : Bool) (lvl : LogLevel) (path : Str) (fl : Bool) (dev : Device)
        (d : Disk) (ops : List (Op × Device)), dev.openOk = true →
        (∀ o ∈ ops, o.2.openOk = true ∧ o.2.closes) →
        ∀ n, InSync (SinkFile.new T p enabled lvl path fl dev d).state (ops.take n) := by
  intro h
  have hrun := h "%m".toList [] true .ealDebug "a.log".toList true Device.willing Disk.empty
    [(.setEnabled true, Device.willing)] rfl (by simp [Device.closes, Device.willing]) 1
  exact absurd hrun.open_eq (by decide)

end Ealogger.FileToggle
