import Ealogger.Lib.Torn
import Ealogger.AsyncHistory

/-!
The log files under any device, over whole runs of a `Logger`, synchronous or not.

Opening, writing, flushing and closing may all be refused, at any time and as often as it
pleases the device, and a part of a buffer may be lost. The files are append-only even so, and
what is appended is made of the lines that the sink was handed, in their order.
-/

namespace Ealogger.Faults

open Streams FileView FileFailure History

/-! ### One call on a file sink -/

section Sink

variable (f : SinkFile) (dev : Device) (d : Disk) (msg : Str)

/-- Of a line the message is taken in, or all, or nothing. -/
lemma writeMessage_adds :
    ∃ t, t <+: msg ++ ['\n'] ∧ f.fileStream.Adds d
      ((f.writeMessage dev msg d).state.1.fileStream, (f.writeMessage dev msg d).state.2) t := by
  let good : OFStream Char × Disk → Prop := fun st =>
    ∃ t, t <+: msg ++ ['\n'] ∧ f.fileStream.Adds d st t
  change good ((f.writeMessage dev msg d).state.1.fileStream, (f.writeMessage dev msg d).state.2)
  simp only [SinkFile.writeMessage, SinkFile.onStream, Call.map_state, Call.catchAll_state]
  split
  · refine Call.andThen_state (p := good) ?_ ?_
    · rcases Call.andThen_cases (f.fileStream.insert msg dev.insert d)
        (fun st => st.1.insert ['\n'] dev.newline st.2) with hstate | hstate
      · rw [hstate]
        rcases OFStream.insert_adds (s := f.fileStream) (d := d) msg dev.insert with h | ⟨h, -⟩
        · exact ⟨msg, List.prefix_append _ _, h⟩
        · exact ⟨[], List.nil_prefix, h⟩
      · rw [hstate]
        rcases OFStream.insert_adds (s := f.fileStream) (d := d) msg dev.insert with h | ⟨h, hfail⟩
        · rcases OFStream.insert_adds (s := (f.fileStream.insert msg dev.insert d).state.1)
            (d := (f.fileStream.insert msg dev.insert d).state.2) ['\n'] dev.newline
            with h' | ⟨h', -⟩
          · exact ⟨msg ++ ['\n'], List.prefix_refl _, h.trans h'⟩
          · exact ⟨msg ++ [], by simp, h.trans h'⟩
        -- a stream that has refused the message refuses the end of the line
        · rw [OFStream.insert_of_fail _ _ hfail]
          exact ⟨[], List.nil_prefix, h⟩
    · rintro st ⟨t, ht, h⟩
      split
      · exact ⟨t ++ [], by simpa using ht, h.trans (OFStream.flush_adds dev.flush)⟩
      · exact ⟨t, ht, h⟩
  · exact ⟨[], List.nil_prefix, OFStream.Adds.refl _ _⟩

/-- After a close the stream is closed, or it is open on the same file as before. -/
lemma closeFile_file : (f.closeFile dev d).state.1.fileStream.file = f.fileStream.file ∨
    (f.closeFile dev d).state.1.fileStream.file = none := by
  simp only [SinkFile.closeFile, SinkFile.onStream, Call.map_state]
  split
  · rcases Call.andThen_cases (f.fileStream.flush dev.flush d)
      (fun st => st.1.close dev.close st.2) with hstate | hstate
    · rw [hstate]
      exact Or.inl (OFStream.flush_file _ _ _)
    · rw [hstate]
      exact Or.inr (OFStream.close_file _ _ _)
  · exact Or.inl rfl

lemma closeFile_leaves : (f.closeFile dev d).state.2.dir = d.dir ∧ ∀ i,
    Leaves (d.data i) (f.fileStream.intake d i) [] ((f.closeFile dev d).state.2.data i)
      ((f.closeFile dev d).state.1.fileStream.intake (f.closeFile dev d).state.2 i) := by
  simp only [SinkFile.closeFile, SinkFile.onStream, Call.map_state]
  have hflush := OFStream.flush_adds (s := f.fileStream) (d := d) dev.flush
  have hleaves := fun i => hflush.leaves i fun _ => torn_nil []
  split
  · rcases Call.andThen_cases (f.fileStream.flush dev.flush d)
      (fun st => st.1.close dev.close st.2) with hstate | hstate
    · rw [hstate]
      exact ⟨hflush.dir, hleaves⟩
    · rw [hstate]
      obtain ⟨hdir, hclose⟩ := OFStream.close_leaves
        (s := (f.fileStream.flush dev.flush d).state.1)
        (d := (f.fileStream.flush dev.flush d).state.2) dev.close
      exact ⟨hdir.trans hflush.dir, fun i => (hleaves i).trans (hclose i)⟩
  · exact ⟨rfl, fun i => Leaves.refl (OFStream.data_prefix_intake _ _ _)⟩

/-- A stream that cannot be opened stays closed; one that is opened has nothing to write. -/
lemma openFile_cases (hopen : f.fileStream.isOpen = false) :
    ((f.openFile dev d).state.2 = d ∧
        (f.openFile dev d).state.1.fileStream.file = none ∧
        (f.openFile dev d).state.1.fileStream.buffer = f.fileStream.buffer) ∨
      ((f.openFile dev d).state.2 = d.create f.logFile ∧
        (f.openFile dev d).state.1.fileStream.file = (d.create f.logFile).names f.logFile ∧
        (f.openFile dev d).state.1.fileStream.buffer = []) := by
  cases hok : dev.openOk with
  | true =>
    obtain ⟨s, he, -, -, hfile, -, hbuf⟩ := SinkFile.openFile_spec (d := d) hopen hok
    rw [he]
    exact Or.inr ⟨rfl, hfile, hbuf⟩
  | false =>
    have hfile : f.fileStream.file = none := by simpa [OFStream.isOpen] using hopen
    refine Or.inl ?_
    cases hmask : f.fileStream.mask <;>
      simp [SinkFile.openFile, SinkFile.onStream, hopen, hok, OFStream.openApp, OFStream.setFail,
        hmask, Call.andThen, hfile]

end Sink

/-! ### One step -/

/-- The stream is open on a file that exists, if it is. -/
structure Bound (st : St) : Prop where
  dir : st.2.dir.Sound
  file : ∀ i, (stream st.1).file = some i → i < st.2.fresh

/-- What an existing file has on disk. -/
def onDisk (d : Disk) (i : ℕ) : Str := textOn .closed d i

/-- The lines of the messages that have reached a file. -/
def linesOn (i : ℕ) (es : List (ℕ × Str)) : List Str :=
  (Ledger.messagesOf i es).map (· ++ ['\n'])

/-- A step that keeps what is on disk, and adds to the files at most the lines of `es`. -/
structure Endures (st st' : St) (es : List (ℕ × Str)) : Prop where
  bound : Bound st'
  extends_dir : st.2.dir.Extends st'.2.dir
  leaves : ∀ i,
    Leaves (onDisk st.2 i) (text st i) (linesOn i es) (onDisk st'.2 i) (text st' i)

lemma onDisk_eq (d : Disk) (i : ℕ) : onDisk d i = if i < d.fresh then d.data i else [] := by
  rw [onDisk, textOn, OFStream.intake_of_closed rfl]

lemma onDisk_below (s : OFStream Char) (d : Disk) (i : ℕ) : onDisk d i <+: textOn s d i := by
  rw [onDisk_eq, textOn]
  split
  · exact OFStream.data_prefix_intake s d i
  · exact List.prefix_refl _

lemma linesOn_append (i : ℕ) (es fs : List (ℕ × Str)) :
    linesOn i (es ++ fs) = linesOn i es ++ linesOn i fs := by
  simp [linesOn]

lemma Endures.refl {st : St} (h : Bound st) : Endures st st [] :=
  ⟨h, Directory.Extends.refl _, fun i => Leaves.refl (onDisk_below _ _ i)⟩

lemma Endures.trans {st₁ st₂ st₃ : St} {es fs : List (ℕ × Str)} (h : Endures st₁ st₂ es)
    (h' : Endures st₂ st₃ fs) : Endures st₁ st₃ (es ++ fs) := by
  refine ⟨h'.bound, h.extends_dir.trans h'.extends_dir, fun i => ?_⟩
  rw [linesOn_append]
  exact (h.leaves i).trans (h'.leaves i)

/-- From the data of all files to that of the existing ones. -/
lemma leaves_existing {s s' : OFStream Char} {d d' : Disk} {ls : List Str} {i : ℕ}
    (hdir : d'.dir = d.dir) (h : Leaves (d.data i) (s.intake d i) ls (d'.data i) (s'.intake d' i)) :
    Leaves (onDisk d i) (textOn s d i) ls (onDisk d' i) (textOn s' d' i) := by
  have hfresh : d'.fresh = d.fresh := congrArg Directory.fresh hdir
  rw [onDisk_eq, onDisk_eq, textOn, textOn, hfresh]
  split
  · exact h
  · exact ⟨List.prefix_refl _, List.prefix_refl _, [], [], List.prefix_refl _,
      List.prefix_refl _, torn_nil ls, rfl⟩

variable {f : SinkFile} {d : Disk} {st : St}

/-- The parts of `Endures` for a step that leaves the directory as it is. -/
lemma endures_of_dir {o o' : Option SinkFile} {d' : Disk} {es : List (ℕ × Str)}
    (h : Bound (o, d)) (hdir : d'.dir = d.dir)
    (hfile : (stream o').file = (stream o).file ∨ (stream o').file = none)
    (hleaves : ∀ i, Leaves (d.data i) ((stream o).intake d i) (linesOn i es) (d'.data i)
      ((stream o').intake d' i)) :
    Endures (o, d) (o', d') es := by
  have hfresh : d'.fresh = d.fresh := congrArg Directory.fresh hdir
  refine ⟨⟨hdir.symm ▸ h.dir, fun i hi => ?_⟩, ?_, fun i => leaves_existing hdir (hleaves i)⟩
  · rcases hfile with hsame | hnone
    · rw [hsame] at hi
      exact hfresh.symm ▸ h.file i hi
    · rw [hnone] at hi
      cases hi
  · change d.dir.Extends d'.dir
    rw [hdir]
    exact Directory.Extends.refl _

lemma setBase_endures (h : Bound st) (g : Sink → Sink) : Endures st (setBase st g) [] := by
  obtain ⟨o, d⟩ := st
  cases o with
  | none => exact Endures.refl h
  | some f =>
    have hrefl := Endures.refl h
    exact ⟨⟨h.dir, h.file⟩, hrefl.extends_dir, hrefl.leaves⟩

lemma spill_endures (h : Bound st) (n : ℕ) : Endures st (onSink st fun f d =>
    ({ f with fileStream := (f.fileStream.spill n d).1 }, (f.fileStream.spill n d).2)) [] := by
  obtain ⟨o, d⟩ := st
  cases o with
  | none => exact Endures.refl h
  | some f =>
    have hadds := OFStream.spill_adds (s := f.fileStream) (d := d) n
    exact endures_of_dir h hadds.dir (Or.inl hadds.file) fun i =>
      hadds.leaves i fun _ => torn_nil []

lemma prepareLogMessage_endures (h : Bound st) (env : Env) (dev : Device) (m : LogMessage) :
    Endures st (onSink st fun f d => (f.prepareLogMessage env dev m d).state)
      ((ledger st).received env m) := by
  obtain ⟨o, d⟩ := st
  cases o with
  | none => exact Endures.refl h
  | some f =>
    rw [Ledger.received_some (e := ⟨f.toSink, f.logFile, f.fileStream.file⟩) rfl]
    simp only [onSink, SinkFile.prepareLogMessage]
    cases f.toSink.prepareLogMessage env m with
    | none => exact Endures.refl h
    | some msg =>
      obtain ⟨t, ht, hadds⟩ := writeMessage_adds f dev d msg
      refine endures_of_dir h hadds.dir (Or.inl hadds.file) fun i => hadds.leaves i fun hi => ?_
      have hline : linesOn i (f.fileStream.file.map fun j => (j, msg)).toList = [msg ++ ['\n']] := by
        have hfile : f.fileStream.file = some i := hi
        rw [linesOn, Ledger.messagesOf_toList, if_pos hfile]
        rfl
      simp only [hline]
      exact torn_singleton ht

lemma closeFile_endures (h : Bound (some f, d)) (dev : Device) :
    Endures (some f, d) (some (f.closeFile dev d).state.1, (f.closeFile dev d).state.2) [] := by
  obtain ⟨hdir, hleaves⟩ := closeFile_leaves f dev d
  exact endures_of_dir h hdir (closeFile_file f dev d) hleaves

/-- A new file is empty, and the text of the old ones is as before. -/
lemma onDisk_create (d : Disk) (path : Str) (i : ℕ) : onDisk (d.create path) i = onDisk d i :=
  textOn_create (s := .closed) (by simp [OFStream.closed]) path i

lemma openFile_endures (h : Bound (some f, d)) (hopen : f.fileStream.isOpen = false)
    (dev : Device) :
    Endures (some f, d) (some (f.openFile dev d).state.1, (f.openFile dev d).state.2) [] := by
  have hclosed : f.fileStream.file = none := by simpa [OFStream.isOpen] using hopen
  have hdisk : ∀ s : OFStream Char, ∀ d' i, s.file = none ∨ s.buffer = [] →
      textOn s d' i = onDisk d' i := by
    intro s d' i hs
    rw [onDisk_eq, textOn]
    rcases hs with hs | hs
    · rw [OFStream.intake_of_closed hs]
    · rw [OFStream.intake_of_buffer hs]
  rcases openFile_cases f dev d hopen with ⟨hd, hfile, -⟩ | ⟨hd, hfile, hbuf⟩
  · refine endures_of_dir h (congrArg Disk.dir hd) (Or.inr hfile) fun i => ?_
    have hintake : (f.openFile dev d).state.1.fileStream.intake d i = f.fileStream.intake d i := by
      rw [OFStream.intake_of_closed hfile, OFStream.intake_of_closed hclosed]
    simp only [stream, hd, hintake]
    exact Leaves.refl (OFStream.data_prefix_intake _ _ i)
  · have hdir : (d.create f.logFile).dir = d.dir.create f.logFile := Disk.create_dir d f.logFile
    refine ⟨⟨?_, fun i hi => ?_⟩, ?_, fun i => ?_⟩
    · simp only [hd, hdir]
      exact h.dir.create f.logFile
    · have hsound : (d.create f.logFile).dir.Sound := hdir.symm ▸ h.dir.create f.logFile
      simp only [hd]
      exact hsound f.logFile i (hfile.symm.trans hi)
    · simp only [hd, hdir]
      exact Directory.create_extends _ _
    · simp only [text, stream, hd, hdisk _ _ i (Or.inl hclosed), hdisk _ _ i (Or.inr hbuf),
        onDisk_create]
      exact Leaves.refl (List.prefix_refl _)

lemma setEnabled_endures (h : Bound (some f, d)) (b : Bool) (dev : Device) :
    Endures (some f, d) (some (f.setEnabled b dev d).state.1, (f.setEnabled b dev d).state.2)
      [] := by
  have hbase : Endures (some f, d) (some { f with toSink := f.toSink.setEnabled b }, d) [] :=
    setBase_endures h (·.setEnabled b)
  unfold SinkFile.setEnabled SinkFile.configChanged
  split
  · exact hbase.trans (closeFile_endures hbase.bound dev)
  · split
    · next hopen =>
      have hopen : f.fileStream.isOpen = false := by simp_all
      exact hbase.trans (openFile_endures hbase.bound hopen dev)
    · exact hbase

/-- The destruction of a sink that may share its file with another. -/
lemma release_leaves (o : Option SinkFile) (dev : Device) (d : Disk) :
    (release o dev d).dir = d.dir ∧ ∀ i, Leaves (onDisk d i) (textOn (stream o) d i) []
      (onDisk (release o dev d) i) (onDisk (release o dev d) i) := by
  cases o with
  | none => exact ⟨rfl, fun i => Leaves.refl (List.prefix_refl _)⟩
  | some f =>
    have hdisk : release (some f) dev d = (f.closeFile dev d).state.2 := by
      simp [release, SinkFile.destroy]
    obtain ⟨hdir, hleaves⟩ := closeFile_leaves f dev d
    rw [hdisk]
    exact ⟨hdir, fun i => (leaves_existing hdir (hleaves i)).lose⟩

lemma release_endures (h : Bound st) (dev : Device) :
    Endures st (none, release st.1 dev st.2) [] := by
  obtain ⟨hdir, hleaves⟩ := release_leaves st.1 dev st.2
  refine ⟨⟨hdir.symm ▸ h.dir, by simp [stream, OFStream.closed]⟩, ?_, hleaves⟩
  change st.2.dir.Extends (release st.1 dev st.2).dir
  rw [hdir]
  exact Directory.Extends.refl _

/-- The new sink is there before the old one has written out what it has left. -/
lemma new_endures (h : Bound st) (T p : Str) (enabled : Bool) (lvl : LogLevel) (path : Str)
    (fl : Bool) (dev : Device) :
    Endures st (some (SinkFile.new T p enabled lvl path fl dev st.2).state.1,
      release st.1 dev (SinkFile.new T p enabled lvl path fl dev st.2).state.2) [] := by
  obtain ⟨o, d⟩ := st
  let f : SinkFile := ⟨Sink.new T p enabled lvl, path, fl, .closed⟩
  have hf : Bound (some f, d) := ⟨h.dir, by simp [f, stream, OFStream.closed]⟩
  have hmade : ∀ (f' : SinkFile) (d' : Disk), Endures (some f, d) (some f', d') [] →
      f'.fileStream.buffer = [] → (∀ i, onDisk d' i = onDisk d i) →
      (∀ i, textOn (stream o) d' i = textOn (stream o) d i) →
      Endures (o, d) (some f', release o dev d') [] := by
    intro f' d' hnew hbuf hdisk htext
    obtain ⟨hdir, hleaves⟩ := release_leaves o dev d'
    have hfresh : (release o dev d').fresh = d'.fresh := congrArg Directory.fresh hdir
    refine ⟨⟨hdir.symm ▸ hnew.bound.dir, fun i hi => ?_⟩, ?_, fun i => ?_⟩
    · exact hfresh.symm ▸ hnew.bound.file i hi
    · change d.dir.Extends (release o dev d').dir
      rw [hdir]
      exact hnew.extends_dir
    · have hleft := hleaves i
      have hown : text (some f', release o dev d') i = onDisk (release o dev d') i := by
        rw [onDisk_eq, text, stream, textOn, OFStream.intake_of_buffer hbuf]
      rw [hdisk, htext] at hleft
      rw [hown]
      exact hleft
  have hbound : ∀ i, (stream o).file = some i → i < d.fresh := h.file
  cases enabled with
  | false => exact hmade f d (Endures.refl hf) rfl (fun _ => rfl) fun _ => rfl
  | true =>
    have hopened := openFile_endures hf rfl dev
    change Endures (o, d) (some (f.openFile dev d).state.1,
      release o dev (f.openFile dev d).state.2) []
    rcases openFile_cases f dev d rfl with ⟨hd, -, hbuf⟩ | ⟨hd, -, hbuf⟩
    · refine hmade _ _ hopened hbuf ?_ ?_ <;> simp [hd]
    · refine hmade _ _ hopened hbuf ?_ ?_ <;> rw [hd]
      · exact onDisk_create d path
      · exact textOn_create hbound path

/-- **One call.** Whatever the device answers. -/
theorem exec_endures (h : Bound st) (o : Op) (dev : Device) :
    Endures st (exec (o, dev) st) ((ledger st).reaches o) := by
  have hskip : Endures st st [] := Endures.refl h
  cases o with
  | writeLog env now stack msg lvl file lnumber func => exact prepareLogMessage_endures h env dev _
  | initFileSink enabled lvl T p path fl => exact new_endures h T p enabled lvl path fl dev
  | setMsgTemplate k T =>
    cases k with
    | ealFileSimple => exact setBase_endures h (·.setMsgTemplate T)
    | _ => exact hskip
  | setDatetimePattern k p =>
    cases k with
    | ealFileSimple => exact setBase_endures h (·.setDatetimePattern p)
    | _ => exact hskip
  | setMinLvl k lvl =>
    cases k with
    | ealFileSimple => exact setBase_endures h (·.setMinLvl lvl)
    | _ => exact hskip
  | setEnabled k b =>
    cases k with
    | ealFileSimple =>
      obtain ⟨o, d⟩ := st
      cases o with
      | none => exact hskip
      | some f => exact setEnabled_endures h b dev
    | _ => exact hskip
  | discardSink k =>
    cases k with
    | ealFileSimple => exact release_endures h dev
    | _ => exact hskip
  | _ => exact hskip

/-! ### Runs -/

variable {L : Logger}

lemma step_endures (h : Good L) (hb : Bound (view L)) (s : Step) :
    Endures (view L) (view (step L s)) (reaches L s) := by
  cases s with
  | op o dev =>
    rw [step, view_exec h]
    exact exec_endures hb o dev
  | spill n =>
    rw [view_spill h]
    exact spill_endures hb n

lemma run_endures (h : Good L) (hb : Bound (view L)) (ss : List Step) :
    Good (run L ss) ∧ Endures (view L) (view (run L ss)) (reached L ss) := by
  induction ss generalizing L with
  | nil => exact ⟨h, Endures.refl hb⟩
  | cons s ss ih =>
    have hstep := step_endures h hb s
    obtain ⟨hgood, hrest⟩ := ih (step_good h s) hstep.bound
    exact ⟨hgood, hstep.trans hrest⟩

/-- The destructor of the `Logger`. -/
lemma destroy_endures (h : Good L) (hb : Bound (view L)) (last : Device) :
    Endures (view L) (view (L.destroy last).state) [] := by
  rw [view_destroy h]
  exact release_endures hb last

/-- A path of which the file is new had none before. -/
lemma onDisk_eq_contents {st st' : St} {es : List (ℕ × Str)} (hb : Bound st)
    (h : Endures st st' es) {path : Str} {i : ℕ} (hi : st'.2.names path = some i) :
    onDisk st.2 i = st.2.contents path := by
  rw [onDisk_eq, Disk.contents]
  rcases h.extends_dir.new path i hi with hold | hnew
  · have hold' : st.2.names path = some i := hold
    have hlt : i < st.2.fresh := hb.dir path i hold
    rw [hold', if_pos hlt]
  · have hge : ¬ i < st.2.fresh := Nat.not_lt.mpr hnew
    rw [if_neg hge]
    cases hj : st.2.names path with
    | none => rfl
    | some j =>
      obtain rfl : j = i := Option.some.inj ((h.extends_dir.keeps path j hj).symm.trans hi)
      exact absurd (hb.dir path j hj) hge

/-- From the files to the paths. -/
lemma Endures.contents {st st' : St} {es : List (ℕ × Str)} (hb : Bound st)
    (h : Endures st st' es) (path : Str) : st.2.contents path <+: st'.2.contents path ∧
      (stream st.1 = .closed → ∃ t, Torn (match st'.2.names path with
        | some i => linesOn i es
        | none => []) t ∧ st.2.contents path ++ t = st'.2.contents path) := by
  cases hi : st'.2.names path with
  | none =>
    have hnone : st.2.names path = none := h.extends_dir.names_none hi
    have hempty : st.2.contents path = [] := by rw [Disk.contents, hnone]
    have hempty' : st'.2.contents path = [] := by rw [Disk.contents, hi]
    rw [hempty, hempty']
    exact ⟨List.prefix_refl _, fun _ => ⟨[], torn_nil _, rfl⟩⟩
  | some i =>
    have hlt : i < st'.2.fresh := h.bound.dir path i hi
    have hbefore := onDisk_eq_contents hb h hi
    have hafter : onDisk st'.2 i = st'.2.contents path := by
      rw [onDisk_eq, if_pos hlt, Disk.contents, hi]
    have hleaves := h.leaves i
    rw [hbefore, hafter] at hleaves
    refine ⟨hleaves.kept, fun hclosed => ?_⟩
    have htext : text st i = st.2.contents path := by
      rw [text, hclosed]
      exact hbefore
    rw [htext] at hleaves
    exact hleaves.torn

/-- The lines of the messages that have reached, while a stream was open on it, the file that the
path names in the end. -/
def linesAt (d : Disk) (ss : List Step) (path : Str) : List Str :=
  match (run (Logger.new d) ss).world.disk.names path with
  | some i => linesOn i (reached (Logger.new d) ss)
  | none => []

/-- What a device can do to the files, at worst. -/
structure Survives (d : Disk) (ss : List Step) : Prop where
  torn : ∀ path, ∃ t, Torn (linesAt d ss path) t ∧
    d.contents path ++ t = (run (Logger.new d) ss).world.disk.contents path
  destroyed : ∀ last path, ∃ t, Torn (linesAt d ss path) t ∧
    d.contents path ++ t = ((run (Logger.new d) ss).destroy last).state.world.disk.contents path
  kept : ∀ pre, pre <+: ss → ∀ path, (run (Logger.new d) pre).world.disk.contents path <+:
    (run (Logger.new d) ss).world.disk.contents path

/-- The end of the first line is refused; the sink is disabled and enabled twice before the
second message, and a part of that is all the device takes at the end. -/
def refusals : List Step :=
  [.op (.initFileSink true .ealDebug "%m".toList [] "a.log".toList false) Device.willing,
    .op (LogCall.op Env.bare (.plain 0 [] "one".toList .ealInfo))
      { Device.willing with newline := ⟨false, 2⟩ },
    .op (.setEnabled .ealFileSimple true) Device.willing,
    .op (.setEnabled .ealFileSimple true) Device.willing,
    .op (LogCall.op Env.bare (.plain 0 [] "two".toList .ealInfo)) Device.willing,
    .op (.discardSink .ealFileSimple) { Device.willing with flush := ⟨false, 1⟩ }]

example : (run (Logger.new Disk.empty) refusals).world.disk.contents "a.log".toList =
    "onet".toList := by
  decide

/-! ### Asynchronous runs -/

section Async

open Clients AsyncHistory

variable {ι : Type} [DecidableEq ι]

/-- Calls one after the other, with nothing written out in between. -/
def stepsOf (os : List (Op × Device)) : List Step := os.map fun o => .op o.1 o.2

lemma run_stepsOf (L : Logger) (os : List (Op × Device)) : run L (stepsOf os) = L.run os := by
  induction os generalizing L with
  | nil => rfl
  | cons o os ih => exact ih (L.exec o).state

lemma view_dispatch_endures (h : Good L) (hb : Bound (view L)) (env : Env) (dev : Device)
    (m : LogMessage) (k : LoggerSink) :
    ∃ es, Endures (view L) (view (L.dispatch env dev m k).state) es := by
  rw [view_dispatch h]
  split
  · exact ⟨_, prepareLogMessage_endures hb env dev m⟩
  · exact ⟨[], Endures.refl hb⟩

/-- Whoever makes the next step. -/
lemma next_endures (env : Env) {s : Async ι} (h : Good s.logger) (hb : Bound (view s.logger))
    (a : Label ι) : Good (Async.next env a s).logger ∧
      ∃ es, Endures (view s.logger) (view (Async.next env a s).logger) es := by
  cases a with
  | sinkCall i o dev =>
    refine ⟨(exec_does h (o, dev)).good, (ledger (view s.logger)).reaches o, ?_⟩
    simp only [Async.next, view_exec h]
    exact exec_endures hb o dev
  | hand k m dev =>
    exact ⟨(dispatch_does (k := k) h env dev m).good, view_dispatch_endures h hb env dev m k⟩
  | _ => exact ⟨h, [], Endures.refl hb⟩

lemma asyncRun_endures (env : Env) {s : Async ι} (h : Good s.logger) (hb : Bound (view s.logger))
    (as : List (Label ι)) : Good ((Async.lts env).run s as).logger ∧
      ∃ es, Endures (view s.logger) (view ((Async.lts env).run s as).logger) es := by
  induction as generalizing s with
  | nil => exact ⟨h, [], Endures.refl hb⟩
  | cons a as ih =>
    obtain ⟨hgood, es, hstep⟩ := next_endures env h hb a
    obtain ⟨hgood', fs, hrest⟩ := ih hgood hstep.bound
    exact ⟨hgood', es ++ fs, hstep.trans hrest⟩

/-- One order of the calls of all clients that explains what the files hold, torn as the lines
may be; the calls `rest` of `write_log` have not got there yet. -/
structure Weathers (env : Env) (d : Disk) (setup : List (Op × Device)) (as : List (Label ι))
    (s : Async ι) (eff : List (Effect ι)) (rest : ι → List LogCall) : Prop where
  linearized : Linearized env ((Logger.new d).run setup) .ealFileSimple as s eff rest
  torn : ∀ path, ∃ t, Torn (linesAt d (stepsOf (setup ++ eff.map Prod.snd)) path) t ∧
    d.contents path ++ t = s.logger.world.disk.contents path
  destroyed : ∀ last path, ∃ t, Torn (linesAt d (stepsOf (setup ++ eff.map Prod.snd)) path) t ∧
    d.contents path ++ t = (s.logger.destroy last).state.world.disk.contents path
  kept : ∀ pre, pre <+: as → ∀ path,
    ((Async.lts env).run (Async.start ((Logger.new d).run setup)) pre).logger.world.disk.contents
      path <+: s.logger.world.disk.contents path

/-- The first message is refused on its way to the disk; the stream is closed and opened by two
calls of another client before the second one gets there. -/
def refused : List (Label Bool) :=
  let m := (LogCall.plain 0 [] "a".toList .ealInfo).message
  let n := (LogCall.plain 0 [] "b".toList .ealInfo).message
  [.call true (.plain 0 [] "a".toList .ealInfo), .push true m, .test, .pop m, .skip .ealConsole,
    .skip .ealSyslog, .hand .ealFileSimple m { Device.willing with insert := ⟨false, 0⟩ },
    .sinkCall false (.setEnabled .ealFileSimple true) Device.willing, .finish m, .test,
    .call true (.plain 0 [] "b".toList .ealInfo), .push true n, .pop n, .skip .ealConsole,
    .sinkCall false (.setEnabled .ealFileSimple true) Device.willing, .skip .ealSyslog,
    .hand .ealFileSimple n { Device.willing with newline := ⟨true, 1⟩ }]

end Async

end Ealogger.Faults
