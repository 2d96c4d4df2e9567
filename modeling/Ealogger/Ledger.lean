import Ealogger.FileToggle
import Ealogger.FileView

/-!
What a file sink is for: a ledger of which message went to which file.

The ledger knows of a file sink its settings, its path and the file its stream holds open, and
of the file system where the files are. It knows nothing of buffers, of the flushing of
buffers or of devices. Over a device without faults every operation on the file sink is the
operation of the ledger, and the text of a file, on disk or still in the stream, grows by
exactly the messages that the ledger says have reached it.
-/

namespace Ealogger

open Streams FileToggle

/-- A file sink without its buffer. -/
structure Entry where
  toSink : Sink
  logFile : Str
  file : Option ℕ

structure Ledger where
  entry : Option Entry
  dir : Directory Str

namespace Ledger

/-- The stream of a sink is opened. -/
def openAt (e : Entry) (D : Directory Str) : Ledger :=
  ⟨some { e with file := (D.create e.logFile).names e.logFile }, D.create e.logFile⟩

def setBase (A : Ledger) (g : Sink → Sink) : Ledger :=
  { A with entry := A.entry.map fun e => { e with toSink := g e.toSink } }

/-- `set_enabled(true)` toggles the stream, `set_enabled(false)` leaves it as it is. -/
def setEnabled (e : Entry) (D : Directory Str) (b : Bool) : Ledger :=
  let e' := { e with toSink := e.toSink.setEnabled b }
  if b then
    match e.file with
    | some _ => ⟨some { e' with file := none }, D⟩
    | none => openAt e' D
  else ⟨some e', D⟩

def exec (o : Op) (A : Ledger) : Ledger :=
  match o with
  | .initFileSink enabled minLvl T p path _ =>
    let e : Entry := ⟨Sink.new T p enabled minLvl, path, none⟩
    if enabled then openAt e A.dir else ⟨some e, A.dir⟩
  | .setMsgTemplate .ealFileSimple T => A.setBase (·.setMsgTemplate T)
  | .setDatetimePattern .ealFileSimple p => A.setBase (·.setDatetimePattern p)
  | .setMinLvl .ealFileSimple lvl => A.setBase (·.setMinLvl lvl)
  | .setEnabled .ealFileSimple b => match A.entry with
    | some e => setEnabled e A.dir b
    | none => A
  | .discardSink .ealFileSimple => ⟨none, A.dir⟩
  | _ => A

/-- The file a message reaches, if it gets as far as `write_message` while a stream is open. -/
def received (env : Env) (m : LogMessage) (A : Ledger) : List (ℕ × Str) :=
  match A.entry with
  | none => []
  | some e => match e.file, e.toSink.prepareLogMessage env m with
    | some i, some msg => [(i, msg)]
    | _, _ => []

lemma received_some {A : Ledger} {e : Entry} (h : A.entry = some e) (env : Env)
    (m : LogMessage) : A.received env m = match e.toSink.prepareLogMessage env m with
      | some msg => (e.file.map fun i => (i, msg)).toList
      | none => [] := by
  simp only [received, h]
  cases e.file <;> cases e.toSink.prepareLogMessage env m <;> rfl

def reaches (o : Op) (A : Ledger) : List (ℕ × Str) :=
  match o with
  | .writeLog env now stack msg lvl file lnumber func =>
    A.received env (LogMessage.build now stack msg lvl file lnumber func)
  | _ => []

/-- The messages among them that have reached one file. -/
def messagesOf (i : ℕ) (es : List (ℕ × Str)) : List Str :=
  es.filterMap fun e => if e.1 = i then some e.2 else none

@[simp] lemma messagesOf_nil (i : ℕ) : messagesOf i [] = [] := rfl

@[simp] lemma messagesOf_append (i : ℕ) (es fs : List (ℕ × Str)) :
    messagesOf i (es ++ fs) = messagesOf i es ++ messagesOf i fs := by
  simp [messagesOf]

lemma messagesOf_toList (i : ℕ) (o : Option ℕ) (msg : Str) :
    messagesOf i (o.map fun j => (j, msg)).toList = if o = some i then [msg] else [] := by
  cases o with
  | none => rfl
  | some j => by_cases hij : j = i <;> simp [messagesOf, hij]

end Ledger

namespace FileView

def ledger (st : St) : Ledger :=
  ⟨st.1.map fun f => ⟨f.toSink, f.logFile, f.fileStream.file⟩, st.2.dir⟩

/-- A sink whose stream has not been refused anything. -/
structure Sane (f : SinkFile) (D : Directory Str) : Prop where
  good : f.fileStream.isOpen = true → f.fileStream.fail = false
  empty : f.fileStream.isOpen = false → f.fileStream.buffer = []
  bound : ∀ i, f.fileStream.file = some i → i < D.fresh
  flushed : f.flushBuffer = true → f.fileStream.buffer = []

structure Sound (st : St) : Prop where
  dir : st.2.dir.Sound
  sane : ∀ f, st.1 = some f → Sane f st.2.dir

/-- What an existing file holds, together with what the stream has still to write to it. -/
def textOn (s : OFStream Char) (d : Disk) (i : ℕ) : Str :=
  if i < d.fresh then s.intake d i else []

def stream (o : Option SinkFile) : OFStream Char :=
  match o with
  | some f => f.fileStream
  | none => .closed

def text (st : St) (i : ℕ) : Str := textOn (stream st.1) st.2 i

/-- A step that the ledger makes as well, and that adds the messages `es` to their files. -/
structure Follows (st st' : St) (A : Ledger) (es : List (ℕ × Str)) : Prop where
  sound : Sound st'
  ledger_eq : ledger st' = A
  text : ∀ i, text st' i = text st i ++ lines (Ledger.messagesOf i es)

/-! ### Texts -/

lemma textOn_of_buffer {s : OFStream Char} (hs : s.buffer = []) {d : Disk} {i : ℕ}
    (hi : i < d.fresh) : textOn s d i = d.data i := by
  rw [textOn, if_pos hi, OFStream.intake_of_buffer hs]

/-- The creation of a file adds no text. -/
lemma textOn_create {s : OFStream Char} {d : Disk} (hs : ∀ i, s.file = some i → i < d.fresh)
    (path : Str) (i : ℕ) : textOn s (d.create path) i = textOn s d i := by
  have hle : d.fresh ≤ (d.create path).fresh := by
    have h := Directory.fresh_le_create d.dir path
    rwa [← Disk.create_dir] at h
  rcases Nat.lt_or_ge i d.fresh with hi | hi
  · rw [textOn, textOn, if_pos hi, if_pos (Nat.lt_of_lt_of_le hi hle), OFStream.intake,
      Disk.create_data d path hi, OFStream.intake]
  · have hfile : s.file ≠ some i := fun h => absurd (hs i h) (Nat.not_lt.mpr hi)
    rw [textOn, textOn, if_neg (Nat.not_lt.mpr hi), OFStream.intake, if_neg hfile]
    split
    · next hi' => rw [Disk.create_data_new d path hi hi', List.append_nil]
    · rfl

lemma textOn_takes {s s' : OFStream Char} {d d' : Disk} {t : Str} (h : s.Takes d s' d' t)
    (hs : ∀ i, s.file = some i → i < d.fresh) (i : ℕ) :
    textOn s' d' i = textOn s d i ++ if s.file = some i then t else [] := by
  have hfresh : d'.fresh = d.fresh := congrArg Directory.fresh h.dir
  rw [textOn, textOn, hfresh, h.intake]
  by_cases hi : i < d.fresh
  · rw [if_pos hi, if_pos hi]
  · rw [if_neg hi, if_neg hi, if_neg fun hfile => hi (hs i hfile), List.append_nil]

/-- Text that has only moved from the buffer of one stream to the disk. -/
lemma textOn_eq {s s' : OFStream Char} {d d' : Disk} (hs : s'.buffer = []) (hdir : d'.dir = d.dir)
    (hdata : ∀ i, d'.data i = s.intake d i) (i : ℕ) : textOn s' d' i = textOn s d i := by
  have hfresh : d'.fresh = d.fresh := congrArg Directory.fresh hdir
  rw [textOn, textOn, hfresh, OFStream.intake_of_buffer hs, hdata]

/-! ### The parts of the operations -/

variable {st : St} {f : SinkFile} {d : Disk} {dev : Device}

lemma Sane.sound (h : Sane f d.dir) (hd : d.dir.Sound) : Sound (some f, d) := by
  refine ⟨hd, ?_⟩
  rintro g hg
  obtain rfl := Option.some.inj hg
  exact h

lemma Sound.sane_some (h : Sound (some f, d)) : Sane f d.dir := h.sane f rfl

lemma Sound.none (hd : d.dir.Sound) : Sound (none, d) := ⟨hd, by simp⟩

/-- A disk that another has been moved to. -/
lemma Sane.congr {D : Directory Str} (h : Sane f d.dir) (hle : d.dir.fresh ≤ D.fresh) :
    Sane f D :=
  ⟨h.good, h.empty, fun i hi => Nat.lt_of_lt_of_le (h.bound i hi) hle, h.flushed⟩

/-- The destruction of a sink leaves all its text on disk. -/
lemma release_spec (o : Option SinkFile) (h : ∀ f, o = some f → Sane f d.dir)
    (hdev : dev.Faultless) :
    (release o dev d).dir = d.dir ∧ ∀ i, (release o dev d).data i = (stream o).intake d i := by
  cases o with
  | none => exact ⟨rfl, fun i => (OFStream.intake_of_closed rfl i).symm⟩
  | some f =>
    have hf := h f rfl
    cases hopen : f.fileStream.isOpen with
    | false =>
      have hdisk : release (some f) dev d = d := by
        simp [release, SinkFile.destroy, SinkFile.closeFile_closed hopen, Call.noexcept, Call.ret]
      rw [hdisk]
      exact ⟨rfl, fun i => (OFStream.intake_of_buffer (hf.empty hopen) i).symm⟩
    | true =>
      obtain ⟨s, d', he, -, -, hdir, hdata⟩ :=
        SinkFile.closeFile_ok (d := d) hopen (hf.good hopen) hdev.closes
      have hdisk : release (some f) dev d = d' := by
        simp [release, SinkFile.destroy, he, Call.noexcept, Call.ret]
      rw [hdisk]
      exact ⟨hdir, hdata⟩

/-- Opening a closed stream. -/
lemma openFile_follows (h : Sound (some f, d)) (hopen : f.fileStream.isOpen = false)
    (hdev : dev.openOk = true) :
    ∃ s, f.openFile dev d = .ret ({ f with fileStream := s }, d.create f.logFile) ∧
      s.buffer = [] ∧
      Follows (some f, d) (some { f with fileStream := s }, d.create f.logFile)
        (Ledger.openAt ⟨f.toSink, f.logFile, none⟩ d.dir) [] := by
  obtain ⟨s, he, hs, -, hfile, hfail, hbuf⟩ := SinkFile.openFile_spec (d := d) hopen hdev
  have hdir : (d.create f.logFile).dir.Sound := by
    rw [Disk.create_dir]
    exact h.dir.create f.logFile
  refine ⟨s, he, hbuf,
    Sane.sound ⟨fun _ => hfail, fun hc => ?_, fun i hi => ?_, fun _ => hbuf⟩ hdir,
    ?_, fun i => ?_⟩
  · exact hbuf
  · exact hdir f.logFile i (hfile.symm.trans hi)
  · have hnames : (d.create f.logFile).names = (d.dir.create f.logFile).names := by
      rw [← Disk.create_dir]
      rfl
    simp only [ledger, Option.map_some, hfile, hnames, Disk.create_dir, Ledger.openAt]
  · have hempty := h.sane_some.empty hopen
    have hclosed : f.fileStream.file = none := by simpa [OFStream.isOpen] using hopen
    have hsame : textOn s (d.create f.logFile) i = textOn f.fileStream (d.create f.logFile) i := by
      rw [textOn, textOn, OFStream.intake_of_buffer hbuf, OFStream.intake_of_buffer hempty]
    have hcreate := textOn_create (s := f.fileStream) (d := d) (by simp [hclosed]) f.logFile i
    simp only [text, stream, Ledger.messagesOf_nil, lines, List.flatMap_nil, List.append_nil]
    exact hsame.trans hcreate

/-- Closing an open stream. -/
lemma closeFile_follows (h : Sound (some f, d)) (hopen : f.fileStream.isOpen = true)
    (hdev : dev.closes) :
    Follows (some f, d) (some (f.closeFile dev d).state.1, (f.closeFile dev d).state.2)
      ⟨some ⟨f.toSink, f.logFile, none⟩, d.dir⟩ [] := by
  obtain ⟨s, d', he, hfile, hbuf, hdir, hdata⟩ :=
    SinkFile.closeFile_ok (d := d) hopen (h.sane_some.good hopen) hdev
  rw [he]
  refine ⟨Sane.sound ⟨fun hs => ?_, fun _ => hbuf, ?_, fun _ => hbuf⟩ (hdir ▸ h.dir), ?_,
    fun i => ?_⟩
  · simp [OFStream.isOpen, hfile] at hs
  · simp [hfile]
  · simp [ledger, hfile, hdir]
  · have hsame := textOn_eq hbuf hdir hdata i
    simpa [text, stream, lines] using hsame

/-- A message handed to the sink. -/
lemma writeMessage_follows (h : Sound (some f, d)) (hdev : dev.writes) (msg : Str) :
    Follows (some f, d)
      (some (f.writeMessage dev msg d).state.1, (f.writeMessage dev msg d).state.2)
      (ledger (some f, d)) (f.fileStream.file.map fun i => (i, msg)).toList := by
  cases hopen : f.fileStream.isOpen with
  | false =>
    have hclosed : f.fileStream.file = none := by simpa [OFStream.isOpen] using hopen
    rw [SinkFile.writeMessage_closed hopen, hclosed]
    exact ⟨h, rfl, fun i => by simp [lines]⟩
  | true =>
    have hf := h.sane_some
    obtain ⟨s, d', he, ht, hflushed⟩ :=
      SinkFile.writeMessage_takes (d := d) hopen (hf.good hopen) (hdev.accepts _) msg
    have hopen' : s.isOpen = true := (OFStream.isOpen_eq ht.file).trans hopen
    simp only [he, Call.ret_state]
    refine ⟨Sane.sound ⟨fun _ => ht.fail.trans (hf.good hopen), fun hc => ?_, fun i hi => ?_,
      hflushed⟩ (ht.dir ▸ h.dir), ?_, fun i => ?_⟩
    · exact absurd (hopen'.symm.trans hc) (by simp)
    · rw [ht.dir]
      exact hf.bound i (ht.file.symm.trans hi)
    · simp [ledger, ht.file, ht.dir]
    · have htext := textOn_takes ht hf.bound i
      simp only [text, stream, htext, Ledger.messagesOf_toList]
      by_cases hi : f.fileStream.file = some i <;> simp [hi, lines]

lemma Follows.refl (h : Sound st) : Follows st st (ledger st) [] :=
  ⟨h, rfl, fun i => by simp [lines]⟩

lemma setBase_follows (h : Sound st) (g : Sink → Sink) :
    Follows st (setBase st g) ((ledger st).setBase g) [] := by
  obtain ⟨o, d⟩ := st
  cases o with
  | none => exact Follows.refl h
  | some f =>
    have hf := h.sane_some
    exact ⟨Sane.sound ⟨hf.good, hf.empty, hf.bound, hf.flushed⟩ h.dir, rfl,
      fun i => by simp [text, stream, setBase, onSink, lines]⟩

lemma prepareLogMessage_follows (h : Sound st) (hdev : dev.Faultless) (env : Env)
    (m : LogMessage) :
    Follows st (onSink st fun f d => (f.prepareLogMessage env dev m d).state) (ledger st)
      ((ledger st).received env m) := by
  obtain ⟨o, d⟩ := st
  cases o with
  | none => exact Follows.refl h
  | some f =>
    rw [Ledger.received_some (e := ⟨f.toSink, f.logFile, f.fileStream.file⟩) rfl]
    simp only [onSink, SinkFile.prepareLogMessage]
    cases f.toSink.prepareLogMessage env m with
    | none => exact Follows.refl h
    | some msg => exact writeMessage_follows h hdev.writes msg

lemma Follows.trans {st₁ st₂ st₃ : St} {A A' : Ledger} {es fs : List (ℕ × Str)}
    (h : Follows st₁ st₂ A es) (h' : Follows st₂ st₃ A' fs) : Follows st₁ st₃ A' (es ++ fs) :=
  ⟨h'.sound, h'.ledger_eq, fun i => by rw [h'.text, h.text]; simp⟩

lemma setEnabled_follows (h : Sound (some f, d)) (hdev : dev.Faultless) (b : Bool) :
    Follows (some f, d) (some (f.setEnabled b dev d).state.1, (f.setEnabled b dev d).state.2)
      (Ledger.setEnabled ⟨f.toSink, f.logFile, f.fileStream.file⟩ d.dir b) [] := by
  have hbase : Follows (some f, d) (some { f with toSink := f.toSink.setEnabled b }, d) _ [] :=
    setBase_follows h (·.setEnabled b)
  cases b with
  | false => exact hbase
  | true =>
    cases hopen : f.fileStream.isOpen with
    | true =>
      obtain ⟨i, hi⟩ := Option.isSome_iff_exists.mp hopen
      have hstep : f.setEnabled true dev d =
          ({ f with toSink := f.toSink.setEnabled true } : SinkFile).closeFile dev d := by
        simp [SinkFile.setEnabled, SinkFile.configChanged, Sink.setEnabled, hopen]
      rw [hstep, hi]
      exact hbase.trans (closeFile_follows hbase.sound hopen hdev.closes)
    | false =>
      have hclosed : f.fileStream.file = none := by simpa [OFStream.isOpen] using hopen
      have hstep : f.setEnabled true dev d =
          ({ f with toSink := f.toSink.setEnabled true } : SinkFile).openFile dev d := by
        simp [SinkFile.setEnabled, SinkFile.configChanged, Sink.setEnabled, hopen]
      obtain ⟨s, he, -, hfollows⟩ := openFile_follows hbase.sound hopen hdev.opens
      rw [hstep, hclosed, he]
      exact hbase.trans hfollows

/-- A new sink beside the old one, whose stream may be open on the same file. -/
lemma new_follows (h : Sound st) (hdev : dev.Faultless) (T p : Str) (enabled : Bool)
    (lvl : LogLevel) (path : Str) (fl : Bool) :
    Follows st
      (some (SinkFile.new T p enabled lvl path fl dev st.2).state.1,
        release st.1 dev (SinkFile.new T p enabled lvl path fl dev st.2).state.2)
      (let e : Entry := ⟨Sink.new T p enabled lvl, path, none⟩
        if enabled then Ledger.openAt e st.2.dir else ⟨some e, st.2.dir⟩) [] := by
  obtain ⟨o, d⟩ := st
  let f : SinkFile := ⟨Sink.new T p enabled lvl, path, fl, .closed⟩
  have hf : Sound (some f, d) :=
    Sane.sound ⟨by simp [f], fun _ => rfl, by simp [f, OFStream.closed], fun _ => rfl⟩ h.dir
  -- whatever the constructor does, it leaves the old stream what it has still to write
  have hmade : ∀ (f' : SinkFile) (d' : Disk) (A : Ledger), f'.fileStream.buffer = [] →
      Follows (some f, d) (some f', d') A [] → d.dir.fresh ≤ d'.dir.fresh →
      (∀ i, textOn (stream o) d' i = textOn (stream o) d i) →
      Follows (o, d) (some f', release o dev d') A [] := by
    intro f' d' A hbuf hfollows hle htext
    obtain ⟨hdir, hdata⟩ := release_spec (d := d') o (fun g hg => (h.sane g hg).congr hle) hdev
    have hf' := hfollows.sound.sane_some
    refine ⟨⟨hdir ▸ hfollows.sound.dir, ?_⟩, ?_, fun i => ?_⟩
    · rintro g hg
      obtain rfl := Option.some.inj hg
      rw [hdir]
      exact hf'
    · rw [← hfollows.ledger_eq]
      simp [ledger, hdir]
    · have hsame := textOn_eq hbuf hdir hdata i
      rw [htext] at hsame
      simpa [text, stream, lines] using hsame
  cases enabled with
  | false => exact hmade f d _ rfl (Follows.refl hf) (Nat.le_refl _) fun i => rfl
  | true =>
    obtain ⟨s, he, hbuf, hfollows⟩ := openFile_follows (f := f) hf rfl hdev.opens
    have hnew : SinkFile.new T p true lvl path fl dev d =
        .ret ({ f with fileStream := s }, d.create path) := he
    have hbound : ∀ i, (stream o).file = some i → i < d.fresh := by
      cases o with
      | none => simp [stream, OFStream.closed]
      | some g => exact (h.sane g rfl).bound
    rw [hnew]
    refine hmade _ _ _ hbuf hfollows ?_ fun i => textOn_create hbound path i
    rw [Call.ret_state, Disk.create_dir]
    exact Directory.fresh_le_create _ _

lemma release_follows (h : Sound st) (hdev : dev.Faultless) :
    Follows st (none, release st.1 dev st.2) ⟨none, st.2.dir⟩ [] := by
  obtain ⟨hdir, hdata⟩ := release_spec (d := st.2) st.1 h.sane hdev
  refine ⟨Sound.none (hdir ▸ h.dir), by simp [ledger, hdir], fun i => ?_⟩
  have hsame : textOn .closed (release st.1 dev st.2) i = textOn (stream st.1) st.2 i :=
    textOn_eq rfl hdir hdata i
  simpa [text, stream, lines] using hsame

/-- **Refinement.** Over a device without faults an operation is that of the ledger. -/
theorem exec_follows (h : Sound st) (op : Op) (hdev : dev.Faultless) :
    Follows st (exec (op, dev) st) ((ledger st).exec op) ((ledger st).reaches op) := by
  have hskip : Follows st st (ledger st) [] := Follows.refl h
  cases op with
  | writeLog env now stack msg lvl file lnumber func =>
    exact prepareLogMessage_follows h hdev env _
  | initFileSink enabled lvl T p path fl => exact new_follows h hdev T p enabled lvl path fl
  | setMsgTemplate k T =>
    cases k with
    | ealFileSimple => exact setBase_follows h (·.setMsgTemplate T)
    | _ => exact hskip
  | setDatetimePattern k p =>
    cases k with
    | ealFileSimple => exact setBase_follows h (·.setDatetimePattern p)
    | _ => exact hskip
  | setMinLvl k lvl =>
    cases k with
    | ealFileSimple => exact setBase_follows h (·.setMinLvl lvl)
    | _ => exact hskip
  | setEnabled k b =>
    cases k with
    | ealFileSimple =>
      obtain ⟨o, d⟩ := st
      cases o with
      | none => exact hskip
      | some f => exact setEnabled_follows h hdev b
    | _ => exact hskip
  | discardSink k =>
    cases k with
    | ealFileSimple => exact release_follows h hdev
    | _ => exact hskip
  | _ => exact hskip

end FileView

end Ealogger
