import Ealogger.Lib.Stream
import Ealogger.Sink

/-!
`sink_file.h` and `sink_file.cpp`: the sink that writes to a log file.

Every operation is given the answers of the device for the calls it may make. Opening and
writing catch what they throw; closing does not.
-/

namespace Ealogger

open Streams

abbrev Disk := Streams.Disk Str Char

/-- The answers of the system to the calls one `Logger` operation can make on a file: no
operation opens, flushes or closes more than once. -/
structure Device where
  openOk : Bool
  insert : Answer
  newline : Answer
  flush : Answer
  close : Answer

/-- Everything a write needs succeeds. -/
def Device.writes (dev : Device) : Prop :=
  dev.insert.ok = true ∧ dev.newline.ok = true ∧ dev.flush.ok = true

/-- Everything the writing of one message needs succeeds. -/
def Device.accepts (dev : Device) (flushBuffer : Bool) : Bool :=
  dev.insert.ok && dev.newline.ok && (!flushBuffer || dev.flush.ok)

lemma Device.writes.accepts {dev : Device} (h : dev.writes) (flushBuffer : Bool) :
    dev.accepts flushBuffer = true := by
  simp [Device.accepts, h.1, h.2.1, h.2.2]

/-- Everything a close needs succeeds. -/
def Device.closes (dev : Device) : Prop := dev.flush.ok = true ∧ dev.close.ok = true

/-- Nothing that is asked for is refused. -/
structure Device.Faultless (dev : Device) : Prop where
  opens : dev.openOk = true
  writes : dev.writes
  closes : dev.closes

/-- A device that refuses nothing and writes nothing out before it is flushed. -/
def Device.willing : Device := ⟨true, ⟨true, 0⟩, ⟨true, 0⟩, ⟨true, 0⟩, ⟨true, 0⟩⟩

lemma Device.willing_faultless : Device.willing.Faultless := by
  refine ⟨rfl, ⟨rfl, rfl, rfl⟩, ⟨rfl, rfl⟩⟩

def Disk.empty : Disk := ⟨fun _ => none, fun _ => [], 0⟩

lemma Disk.empty_sound : Disk.empty.dir.Sound := by
  intro path i hi
  simp [Streams.Disk.dir, Disk.empty] at hi

structure SinkFile extends Sink where
  logFile : Str
  flushBuffer : Bool
  fileStream : OFStream Char

namespace SinkFile

/-- A call on the stream of the sink. -/
def onStream (f : SinkFile) (c : Call (OFStream Char × Disk)) : Call (SinkFile × Disk) :=
  c.map fun st => ({ f with fileStream := st.1 }, st.2)

/-- After a failed `open` a `runtime_error` is thrown, and caught with the rest. -/
def openFile (f : SinkFile) (dev : Device) (d : Disk) : Call (SinkFile × Disk) :=
  f.onStream <| Call.catchAll <|
    if f.fileStream.isOpen then .ret (f.fileStream, d)
    else
      ((f.fileStream.openApp f.logFile dev.openOk d).andThen fun st =>
        if st.1.fail then ⟨.threw, st⟩ else .ret st).andThen fun st => st.1.exceptions st.2

def closeFile (f : SinkFile) (dev : Device) (d : Disk) : Call (SinkFile × Disk) :=
  f.onStream <|
    if f.fileStream.isOpen then
      (f.fileStream.flush dev.flush d).andThen fun st => st.1.close dev.close st.2
    else .ret (f.fileStream, d)

/-- The constructor. -/
def new (msgTemplate datetimePattern : Str) (enabled : Bool) (minLvl : LogLevel) (logFile : Str)
    (flushBuffer : Bool) (dev : Device) (d : Disk) : Call (SinkFile × Disk) :=
  let f : SinkFile :=
    { toSink := Sink.new msgTemplate datetimePattern enabled minLvl
      logFile := logFile
      flushBuffer := flushBuffer
      fileStream := .closed }
  if f.enabled then f.openFile dev d else .ret (f, d)

/-- The destructor. -/
def destroy (f : SinkFile) (dev : Device) (d : Disk) : Call (SinkFile × Disk) :=
  (f.closeFile dev d).noexcept

def writeMessage (f : SinkFile) (dev : Device) (msg : Str) (d : Disk) : Call (SinkFile × Disk) :=
  f.onStream <| Call.catchAll <|
    if f.fileStream.isOpen then
      ((f.fileStream.insert msg dev.insert d).andThen fun st =>
        st.1.insert ['\n'] dev.newline st.2).andThen fun st =>
          if f.flushBuffer then st.1.flush dev.flush st.2 else .ret st
    else .ret (f.fileStream, d)

/-- An enabled sink toggles its stream, a disabled one leaves it as it is. -/
def configChanged (f : SinkFile) (dev : Device) (d : Disk) : Call (SinkFile × Disk) :=
  if f.enabled && f.fileStream.isOpen then f.closeFile dev d
  else if f.enabled && !f.fileStream.isOpen then f.openFile dev d
  else .ret (f, d)

def setEnabled (f : SinkFile) (enabled : Bool) (dev : Device) (d : Disk) :
    Call (SinkFile × Disk) :=
  configChanged { f with toSink := f.toSink.setEnabled enabled } dev d

def prepareLogMessage (env : Env) (f : SinkFile) (dev : Device) (m : LogMessage) (d : Disk) :
    Call (SinkFile × Disk) :=
  match f.toSink.prepareLogMessage env m with
  | some msg => f.writeMessage dev msg d
  | none => .ret (f, d)

/-! ### What the operations leave alone -/

section Frame

variable (f : SinkFile) (dev : Device) (d : Disk)

@[simp] lemma onStream_exit (c : Call (OFStream Char × Disk)) :
    (f.onStream c).exit = c.exit := rfl

lemma onStream_ret (s : OFStream Char) :
    f.onStream (.ret (s, d)) = .ret ({ f with fileStream := s }, d) := rfl

@[simp] lemma openFile_toSink : (f.openFile dev d).state.1.toSink = f.toSink := rfl

@[simp] lemma configChanged_toSink : (f.configChanged dev d).state.1.toSink = f.toSink := by
  unfold configChanged
  split
  · rfl
  · split <;> rfl

@[simp] lemma setEnabled_toSink (b : Bool) :
    (f.setEnabled b dev d).state.1.toSink = f.toSink.setEnabled b := by
  simp [setEnabled]

@[simp] lemma new_toSink (T p : Str) (b : Bool) (lvl : LogLevel) (path : Str) (fl : Bool) :
    (new T p b lvl path fl dev d).state.1.toSink = Sink.new T p b lvl := by
  unfold new
  simp only
  split <;> simp

@[simp] lemma prepareLogMessage_toSink (env : Env) (m : LogMessage) :
    (f.prepareLogMessage env dev m d).state.1.toSink = f.toSink := by
  unfold prepareLogMessage
  split <;> rfl

/-- What a write throws is caught. -/
@[simp] lemma writeMessage_exit (msg : Str) : (f.writeMessage dev msg d).exit = .returned := by
  rw [writeMessage, onStream_exit]
  refine Call.catchAll_exit ?_
  split
  · refine Call.andThen_exit_ne_terminated ?_ fun st => ?_
    · exact Call.andThen_exit_ne_terminated (OFStream.insert_exit _ _ _ _)
        fun st => OFStream.insert_exit _ _ _ _
    · split
      · exact OFStream.flush_exit _ _ _
      · simp
  · simp

/-- So is what opening throws. -/
@[simp] lemma openFile_exit : (f.openFile dev d).exit = .returned := by
  rw [openFile, onStream_exit]
  refine Call.catchAll_exit ?_
  split
  · simp
  · refine Call.andThen_exit_ne_terminated ?_ fun st => OFStream.exceptions_exit _ _
    refine Call.andThen_exit_ne_terminated (OFStream.openApp_exit _ _ _ _) fun st => ?_
    split <;> simp

lemma new_exit (T p : Str) (b : Bool) (lvl : LogLevel) (path : Str) (fl : Bool) :
    (new T p b lvl path fl dev d).exit = .returned := by
  unfold new
  simp only
  split <;> simp

/-- A write neither opens nor closes the stream, and leaves the exception mask alone. -/
lemma writeMessage_stream (msg : Str) :
    (f.writeMessage dev msg d).state.1.fileStream.file = f.fileStream.file ∧
      (f.writeMessage dev msg d).state.1.fileStream.mask = f.fileStream.mask := by
  simp only [writeMessage, onStream, Call.map_state, Call.catchAll_state]
  split
  · let p : OFStream Char × Disk → Prop := fun st =>
      st.1.file = f.fileStream.file ∧ st.1.mask = f.fileStream.mask
    have hins : ∀ st : OFStream Char × Disk, p st → ∀ text a, p (st.1.insert text a st.2).state :=
      fun st hst text a => ⟨(OFStream.insert_file st.1 st.2 text a).trans hst.1,
        (OFStream.insert_mask st.1 st.2 text a).trans hst.2⟩
    refine Call.andThen_state (p := p) ?_ ?_
    · exact Call.andThen_state (p := p) (hins (f.fileStream, d) ⟨rfl, rfl⟩ _ _)
        fun st hst => hins st hst _ _
    · intro st hst
      split
      · exact ⟨(OFStream.flush_file st.1 st.2 _).trans hst.1,
          (OFStream.flush_mask st.1 st.2 _).trans hst.2⟩
      · exact hst
  · exact ⟨rfl, rfl⟩

end Frame

/-! ### The stream under each operation -/

section Stream

variable {f : SinkFile} {dev : Device} {d : Disk}

lemma openFile_spec (hopen : f.fileStream.isOpen = false) (hok : dev.openOk = true) :
    ∃ s, f.openFile dev d = .ret ({ f with fileStream := s }, d.create f.logFile) ∧
      s.isOpen = true ∧ s.mask = true ∧ s.file = (d.create f.logFile).names f.logFile ∧
      s.fail = false ∧ s.buffer = [] := by
  obtain ⟨i, hi⟩ := d.create_names f.logFile
  refine ⟨⟨some i, [], false, true⟩, ?_, rfl, rfl, hi.symm, rfl, rfl⟩
  simp [openFile, hopen, OFStream.openApp, hok, onStream, Call.map,
    OFStream.exceptions, Call.ret, Call.catchAll, Call.andThen, hi]

lemma closeFile_isOpen (hopen : f.fileStream.isOpen = true) (hok : dev.closes) :
    (f.closeFile dev d).state.1.fileStream.isOpen = false := by
  have hflush : ∀ st : OFStream Char × Disk, f.fileStream.flush dev.flush d = .ret st →
      (f.closeFile dev d).state.1.fileStream = (st.1.close dev.close st.2).state.1 := by
    intro st hst
    simp [closeFile, onStream, hopen, hst]
  unfold OFStream.flush at hflush
  rw [if_pos hok.1] at hflush
  split at hflush
  · rw [hflush _ rfl]; simp [OFStream.isOpen]
  · rw [hflush _ rfl]; simp [OFStream.isOpen]

/-- Closing an open stream in a good state leaves on disk all that it has taken in. -/
lemma closeFile_ok (hopen : f.fileStream.isOpen = true) (hfail : f.fileStream.fail = false)
    (hdev : dev.closes) :
    ∃ s d', f.closeFile dev d = .ret ({ f with fileStream := s }, d') ∧ s.file = none ∧
      s.buffer = [] ∧ d'.dir = d.dir ∧ ∀ i, d'.data i = f.fileStream.intake d i := by
  obtain ⟨s₁, d₁, e₁, h₁, -⟩ := OFStream.flush_takes (d := d) hfail hdev.1
  have hopen₁ : s₁.isOpen = true := (OFStream.isOpen_eq h₁.file).trans hopen
  obtain ⟨s₂, d₂, e₂, hfile, hbuf, hdir, hdata⟩ := OFStream.close_ok (d := d₁) hopen₁ hdev.2
  refine ⟨s₂, d₂, ?_, hfile, hbuf, hdir.trans h₁.dir, fun i => ?_⟩
  · rw [← onStream_ret, closeFile]
    simp [hopen, e₁, e₂]
  · rw [hdata, h₁.intake]
    simp

/-- Without an open stream there is nothing to write to. -/
lemma writeMessage_closed (hopen : f.fileStream.isOpen = false) (msg : Str) :
    f.writeMessage dev msg d = .ret (f, d) := by
  rw [writeMessage, hopen, if_neg (by simp), Call.catchAll_ret, onStream_ret]

lemma closeFile_closed (hopen : f.fileStream.isOpen = false) :
    f.closeFile dev d = .ret (f, d) := by
  rw [closeFile, hopen, if_neg (by simp), onStream_ret]

/-- An open stream in a good state takes in a message that the device accepts. -/
lemma writeMessage_takes (hopen : f.fileStream.isOpen = true) (hfail : f.fileStream.fail = false)
    (hdev : dev.accepts f.flushBuffer = true) (msg : Str) :
    ∃ s d', f.writeMessage dev msg d = .ret ({ f with fileStream := s }, d') ∧
      f.fileStream.Takes d s d' (msg ++ ['\n']) ∧ (f.flushBuffer = true → s.buffer = []) := by
  simp only [Device.accepts, Bool.and_eq_true, Bool.or_eq_true, Bool.not_eq_true'] at hdev
  obtain ⟨⟨hins, hnl⟩, hfl⟩ := hdev
  obtain ⟨s₁, d₁, e₁, h₁⟩ := OFStream.insert_takes (d := d) hopen hfail hins msg
  have hopen₁ : s₁.isOpen = true := (OFStream.isOpen_eq h₁.file).trans hopen
  obtain ⟨s₂, d₂, e₂, h₂⟩ :=
    OFStream.insert_takes (d := d₁) hopen₁ (h₁.fail.trans hfail) hnl ['\n']
  have h₁₂ := h₁.trans h₂
  by_cases hbuf : f.flushBuffer = true
  · have hopen₂ : s₂.isOpen = true := (OFStream.isOpen_eq h₂.file).trans hopen₁
    obtain ⟨s₃, d₃, e₃, h₃, hempty⟩ := OFStream.flush_takes (d := d₂) (h₁₂.fail.trans hfail)
      (hfl.resolve_left (by simp [hbuf]))
    refine ⟨s₃, d₃, ?_, by simpa using h₁₂.trans h₃, fun _ => hempty hopen₂⟩
    rw [← onStream_ret, writeMessage]
    congr 1
    simp [hopen, hbuf, e₁, e₂, e₃]
  · refine ⟨s₂, d₂, ?_, h₁₂, fun h => absurd h hbuf⟩
    rw [← onStream_ret, writeMessage]
    congr 1
    simp [hopen, hbuf, e₁, e₂]

end Stream

end SinkFile

end Ealogger
