import Ealogger.FileToggle

/-!
`SinkFile::set_log_file`, with the two mutexes it goes through.

The function takes `mtx_log_file` and then closes and opens the stream. Once the stream is
closed, `open_file` takes `mtx_log_file` again to read the name.
-/

namespace Ealogger.SetLogFile

open Streams

abbrev St := SinkFile × Disk

inductive Mutex | logFile | fileStream
  deriving DecidableEq

/-- A `lock_guard` over a body, for a thread that holds the mutexes `held`. A thread that
holds the mutex already waits for ever: there is no outcome. -/
def withLock (m : Mutex) (held : List Mutex) (body : List Mutex → Option (Call St)) :
    Option (Call St) :=
  if m ∈ held then none else body (m :: held)

def openFile (held : List Mutex) (dev : Device) (st : St) : Option (Call St) :=
  withLock .fileStream held fun held =>
    if st.1.fileStream.isOpen then some (.ret st)
    else withLock .logFile held fun _ => some (st.1.openFile dev st.2)

def closeFile (held : List Mutex) (dev : Device) (st : St) : Option (Call St) :=
  withLock .fileStream held fun _ => some (st.1.closeFile dev st.2)

def setLogFile (logFile : Str) (dev : Device) (st : St) : Option (Call St) :=
  withLock .logFile [] fun held =>
    match closeFile held dev ({ st.1 with logFile := logFile }, st.2) with
    | none => none
    | some c => match c.exit with
      | .returned => openFile held dev c.state
      | _ => some c

inductive Step
  | setLogFile (logFile : Str) (dev : Device)
  | writeMessage (msg : Str) (dev : Device)

/-- The state after a step that returns. -/
def step (st : St) : Step → Option St
  | .setLogFile name dev => match setLogFile name dev st with
    | some ⟨.returned, st'⟩ => some st'
    | _ => none
  | .writeMessage msg dev => some (st.1.writeMessage dev msg st.2).state

def run (st : St) (ss : List Step) : Option St := ss.foldlM step st

/-- A switch that does what it is there for: it returns, everything the old stream had taken
in is in its file, and the stream is open on the file of the new name. -/
structure SwitchesTo (st : St) (name : Str) (dev : Device) (st' : St) : Prop where
  returned : step st (.setLogFile name dev) = some st'
  flushed : ∀ i, st.1.fileStream.file = some i →
    st'.2.data i = st.2.data i ++ st.1.fileStream.buffer
  opened : st'.1.fileStream.isOpen = true ∧ st'.1.fileStream.file = st'.2.names name

/-- Every switch of the sequence is one, and the messages after it go to the file of the new
name and to no other. -/
def Switches (st : St) (ss : List Step) : Prop :=
  ∀ pre name dev post, ss = pre ++ .setLogFile name dev :: post →
    ∃ st₁ st₂, run st pre = some st₁ ∧ SwitchesTo st₁ name dev st₂ ∧
      ∀ (ws : List (Str × Device)) rest,
        post = (ws.map fun w => Step.writeMessage w.1 w.2) ++ rest → (∀ w ∈ ws, w.2.writes) →
        ∃ st₃, run st₂ (ws.map fun w => Step.writeMessage w.1 w.2) = some st₃ ∧
          st₃.2.contents name ++ st₃.1.fileStream.buffer =
            st₂.2.contents name ++ FileToggle.lines (ws.map Prod.fst) ∧
          ∀ j, st₂.2.names name ≠ some j → st₃.2.data j = st₂.2.data j

/-! ### With nothing held, the locks make no difference -/

lemma openFile_nil (dev : Device) (st : St) :
    openFile [] dev st = some (st.1.openFile dev st.2) := by
  obtain ⟨f, d⟩ := st
  cases hopen : f.fileStream.isOpen with
  | true =>
    have hsame : f.openFile dev d = .ret (f, d) := by
      rw [SinkFile.openFile, hopen, if_pos rfl, Call.catchAll_ret, SinkFile.onStream_ret]
    simp [openFile, withLock, hopen, hsame]
  | false => simp [openFile, withLock, hopen]

lemma closeFile_nil (dev : Device) (st : St) :
    closeFile [] dev st = some (st.1.closeFile dev st.2) := by
  simp [closeFile, withLock]

/-! ### A switch -/

/-- A close that returns has closed the stream. -/
lemma closeFile_closed {f : SinkFile} {dev : Device} {d : Disk}
    (h : (f.closeFile dev d).exit = .returned) :
    (f.closeFile dev d).state.1.fileStream.isOpen = false := by
  rw [SinkFile.closeFile, SinkFile.onStream_exit] at h
  simp only [SinkFile.closeFile, SinkFile.onStream, Call.map_state]
  split at h
  · next hopen =>
    rw [if_pos hopen, Call.eq_ret ((Call.andThen_returned _ _).mp h).1, Call.ret_andThen]
    simp [OFStream.isOpen]
  · next hopen =>
    rw [if_neg hopen]
    simpa using hopen

/-- A closed stream cannot be opened by a thread that holds `mtx_log_file`. -/
lemma openFile_waits {held : List Mutex} (hheld : .logFile ∈ held) (dev : Device) {st : St}
    (hopen : st.1.fileStream.isOpen = false) : openFile held dev st = none := by
  have hinner : ∀ held' : List Mutex, .logFile ∈ held' →
      withLock .logFile held' (fun _ => some (st.1.openFile dev st.2)) = none := by
    intro held' h
    simp [withLock, h]
  unfold openFile
  unfold withLock
  split
  · rfl
  · rw [hopen]
    exact hinner _ (List.mem_cons_of_mem _ hheld)

/-- A switch either waits for the mutex that it holds, or leaves by the exception of the
close. -/
lemma setLogFile_eq (name : Str) (dev : Device) (st : St) :
    setLogFile name dev st =
      if (({ st.1 with logFile := name } : SinkFile).closeFile dev st.2).exit = .returned then none
      else some (({ st.1 with logFile := name } : SinkFile).closeFile dev st.2) := by
  have hclose : closeFile [.logFile] dev ({ st.1 with logFile := name }, st.2) =
      some (({ st.1 with logFile := name } : SinkFile).closeFile dev st.2) := by
    simp [closeFile, withLock]
  simp only [setLogFile, withLock, List.not_mem_nil, if_false, hclose]
  split
  · next hret =>
    rw [if_pos hret]
    exact openFile_waits List.mem_cons_self dev (closeFile_closed hret)
  · next hret => rw [if_neg hret]

lemma step_setLogFile (name : Str) (dev : Device) (st : St) :
    step st (.setLogFile name dev) = none := by
  rw [step, setLogFile_eq]
  split
  · next hsome =>
    split at hsome
    · simp at hsome
    · next hret => exact absurd (congrArg Call.exit (Option.some.inj hsome)) hret
  · rfl

/-- **No switch ever switches.** For every state of the sink, every sequence of switches and
messages and all answers of the device: the switches do what they are there for only if
there are none in the sequence. -/
theorem switches_iff (st : St) (ss : List Step) :
    Switches st ss ↔ ∀ name dev, Step.setLogFile name dev ∉ ss := by
  constructor
  · intro h name dev hmem
    obtain ⟨pre, post, rfl⟩ := List.append_of_mem hmem
    obtain ⟨st₁, st₂, -, hswitch, -⟩ := h pre name dev post rfl
    have hret := hswitch.returned
    rw [step_setLogFile] at hret
    exact absurd hret (by simp)
  · rintro h pre name dev post rfl
    exact absurd (by simp) (h name dev)

/-- With a device that refuses nothing, the first switch on a sink that has just been opened
never returns. -/
theorem switches_fails_on_open_sink :
    ¬ ∀ (st : St) (ss : List Step),
      (∀ name dev, Step.setLogFile name dev ∈ ss → dev.openOk = true ∧ dev.closes) →
      Switches st ss := by
  intro h
  let opened := (SinkFile.new "%m".toList [] true .ealDebug "a.log".toList true Device.willing
    Disk.empty).state
  have hwilling : ∀ name dev,
      Step.setLogFile name dev ∈ [Step.setLogFile "b.log".toList Device.willing] →
        dev.openOk = true ∧ dev.closes := by
    intro name dev hmem
    obtain ⟨-, rfl⟩ : name = "b.log".toList ∧ dev = Device.willing := by simpa using hmem
    exact ⟨rfl, rfl, rfl⟩
  obtain ⟨st₁, st₂, -, hswitch, -⟩ := h opened _ hwilling [] "b.log".toList Device.willing [] rfl
  have hret := hswitch.returned
  rw [step_setLogFile] at hret
  exact absurd hret (by simp)

end Ealogger.SetLogFile
