import Ealogger.Ledger

/-!
The log files over whole runs of a synchronous `Logger` on a device without faults.

Between the operations the file sink's stream may write out any part of its buffer. What the
files hold once their streams are closed is what the ledger says, which knows nothing of
buffers.
-/

namespace Ealogger

open Streams
open FileToggle (lines)

namespace Ledger

def run (A : Ledger) (os : List Op) : Ledger := os.foldl (fun A o => A.exec o) A

def reached (A : Ledger) : List Op → List (ℕ × Str)
  | [] => []
  | o :: os => A.reaches o ++ (A.exec o).reached os

/-- Files are created along the way, and none is renamed or removed. -/
lemma exec_extends (A : Ledger) (o : Op) : A.dir.Extends (A.exec o).dir := by
  have hrefl : A.dir.Extends A.dir := Directory.Extends.refl _
  cases o with
  | initFileSink enabled lvl T p path fl =>
    cases enabled with
    | false => exact hrefl
    | true => exact Directory.create_extends _ _
  | setEnabled k b =>
    cases k with
    | ealFileSimple =>
      simp only [exec]
      split
      · next e _ =>
        cases b with
        | false => exact hrefl
        | true =>
          cases hfile : e.file with
          | some i => simpa [setEnabled, hfile] using hrefl
          | none => simpa [setEnabled, hfile, openAt] using Directory.create_extends A.dir e.logFile
      · exact hrefl
    | _ => exact hrefl
  | setMsgTemplate k T => cases k <;> exact hrefl
  | setDatetimePattern k p => cases k <;> exact hrefl
  | setMinLvl k lvl => cases k <;> exact hrefl
  | discardSink k => cases k <;> exact hrefl
  | _ => exact hrefl

lemma run_extends (A : Ledger) (os : List Op) : A.dir.Extends (A.run os).dir := by
  induction os generalizing A with
  | nil => exact Directory.Extends.refl _
  | cons o os ih => exact (A.exec_extends o).trans (ih (A.exec o))

end Ledger

namespace History

open FileView FileFailure

/-- A step of a run: an operation, or the writing out of a part of the buffer. -/
inductive Step
  | op (o : Op) (dev : Device)
  | spill (n : ℕ)

def spill (n : ℕ) (s : AnySink) (w : World) : Call (AnySink × World) :=
  match s with
  | .file f => .ret (.file { f with fileStream := (f.fileStream.spill n w.disk).1 },
      { w with disk := (f.fileStream.spill n w.disk).2 })
  | s => .ret (s, w)

def step (L : Logger) : Step → Logger
  | .op o dev => (L.exec (o, dev)).state
  | .spill n => (L.atSink .ealFileSimple (spill n)).state

def run (L : Logger) (ss : List Step) : Logger := ss.foldl step L

def Step.Faultless : Step → Prop
  | .op _ dev => dev.Faultless
  | .spill _ => True

/-- The messages that reach `write_message` in a step while a stream is open, with the file
it is open on. -/
def reaches (L : Logger) : Step → List (ℕ × Str)
  | .op o _ => (ledger (view L)).reaches o
  | .spill _ => []

def reached (L : Logger) : List Step → List (ℕ × Str)
  | [] => []
  | s :: ss => reaches L s ++ reached (step L s) ss

/-- The operation, without `flush_buffer`. -/
def Step.erase : Step → Option Op
  | .op (.initFileSink enabled minLvl T p path _) _ =>
    some (.initFileSink enabled minLvl T p path false)
  | .op o _ => some o
  | .spill _ => none

def ops (ss : List Step) : List Op := ss.filterMap Step.erase

/-- The initial contents of a file, and then, line by line, the messages that have reached
it. -/
def expected (d : Disk) (ss : List Step) (path : Str) : Str :=
  d.contents path ++ match (run (Logger.new d) ss).world.disk.names path with
    | some i => lines (Ledger.messagesOf i (reached (Logger.new d) ss))
    | none => []

structure Complete (d : Disk) (ss : List Step) : Prop where
  discarded : (run (Logger.new d) ss).loggerSinkMap .ealFileSimple = none → ∀ path,
    (run (Logger.new d) ss).world.disk.contents path = expected d ss path
  destroyed : ∀ last : Device, last.Faultless → ∀ path,
    ((run (Logger.new d) ss).destroy last).state.world.disk.contents path = expected d ss path
  /-- With `flush_buffer` there is nothing to wait for. -/
  flushed : ∀ f, (run (Logger.new d) ss).loggerSinkMap .ealFileSimple = some (.file f) →
    f.flushBuffer = true → ∀ path,
      (run (Logger.new d) ss).world.disk.contents path = expected d ss path
  /-- Neither `flush_buffer` nor the spills make a difference. -/
  independent : ∀ ss' : List Step, (∀ s ∈ ss', s.Faultless) → ops ss' = ops ss →
    expected d ss' = expected d ss

/-! ### One step -/

variable {L : Logger}

lemma ledger_erase {o o' : Op} {dev : Device} (h : Step.erase (.op o dev) = some o')
    (A : Ledger) : A.exec o' = A.exec o ∧ A.reaches o' = A.reaches o := by
  cases o with
  | initFileSink enabled lvl T p path fl =>
    obtain rfl := Option.some.inj h
    exact ⟨rfl, rfl⟩
  | _ =>
    obtain rfl := Option.some.inj h
    exact ⟨rfl, rfl⟩

lemma erase_isSome (o : Op) (dev : Device) : ∃ o', Step.erase (.op o dev) = some o' := by
  cases o <;> exact ⟨_, rfl⟩

lemma spill_same (n : ℕ) (s : AnySink) (w : World) : SameStream s (spill n s w).state.1 := by
  cases s with
  | file f =>
    refine ⟨rfl, ?_, fun h => ?_⟩
    · simp [spill, isOpen, OFStream.isOpen]
    · simpa [spill, SinkMasked, Masked, OFStream.isOpen] using h
  | _ => exact ⟨rfl, rfl, id⟩

lemma step_good (h : Good L) (s : Step) : Good (step L s) := by
  cases s with
  | op o dev => exact (exec_does h (o, dev)).good
  | spill n =>
    rw [step]
    cases hs : L.loggerSinkMap .ealFileSimple with
    | none => rwa [Logger.atSink_none hs]
    | some s =>
      rw [Logger.atSink_some hs]
      exact (put_same h hs (spill_same n s L.world) _).1

lemma view_spill (h : Good L) (n : ℕ) : view (step L (.spill n)) =
    onSink (view L) fun f d =>
      ({ f with fileStream := (f.fileStream.spill n d).1 }, (f.fileStream.spill n d).2) :=
  view_atSink_self h fun _ _ => rfl

lemma spill_follows {st : St} (h : Sound st) (n : ℕ) :
    Follows st (onSink st fun f d =>
      ({ f with fileStream := (f.fileStream.spill n d).1 }, (f.fileStream.spill n d).2))
      (ledger st) [] := by
  obtain ⟨o, d⟩ := st
  cases o with
  | none => exact Follows.refl h
  | some f =>
    have hf := h.sane_some
    have ht := OFStream.spill_takes (s := f.fileStream) (d := d) n
    have hempty : f.fileStream.buffer = [] → (f.fileStream.spill n d).1.buffer = [] := by
      intro hbuf
      unfold OFStream.spill
      split <;> simp [hbuf]
    refine ⟨Sane.sound ⟨fun hopen => ?_, fun hopen => ?_, fun i hi => ?_, fun hfl => ?_⟩
      (ht.dir ▸ h.dir), ?_, fun i => ?_⟩
    · rw [OFStream.isOpen_eq ht.file] at hopen
      exact ht.fail.trans (hf.good hopen)
    · rw [OFStream.isOpen_eq ht.file] at hopen
      exact hempty (hf.empty hopen)
    · rw [ht.dir]
      exact hf.bound i (ht.file.symm.trans hi)
    · exact hempty (hf.flushed hfl)
    · simp [ledger, onSink, ht.dir]
    · have htext := textOn_takes ht hf.bound i
      simpa [text, stream, onSink, lines] using htext

lemma step_follows (h : Good L) (hs : Sound (view L)) {s : Step} (hdev : s.Faultless) :
    Follows (view L) (view (step L s)) ((ledger (view L)).run s.erase.toList) (reaches L s) ∧
      reaches L s = (ledger (view L)).reached s.erase.toList := by
  cases s with
  | op o dev =>
    obtain ⟨o', ho⟩ := erase_isSome o dev
    obtain ⟨hexec, hreaches⟩ := ledger_erase ho (ledger (view L))
    rw [step, view_exec h, ho]
    refine ⟨?_, ?_⟩
    · have hfollows := exec_follows hs o hdev
      rw [← hexec] at hfollows
      exact hfollows
    · simp [reaches, Ledger.reached, hreaches]
  | spill n =>
    rw [view_spill h]
    exact ⟨spill_follows hs n, rfl⟩

/-! ### Runs -/

lemma ledger_run_append (A : Ledger) (os ps : List Op) :
    A.run (os ++ ps) = (A.run os).run ps := by
  simp [Ledger.run]

lemma ledger_reached_append (A : Ledger) (os ps : List Op) :
    A.reached (os ++ ps) = A.reached os ++ (A.run os).reached ps := by
  induction os generalizing A with
  | nil => rfl
  | cons o os ih =>
    rw [List.cons_append, Ledger.reached, Ledger.reached, ih, List.append_assoc]
    rfl

lemma ops_cons (s : Step) (ss : List Step) : ops (s :: ss) = s.erase.toList ++ ops ss := by
  unfold ops
  rw [List.filterMap_cons]
  cases s.erase <;> rfl

/-- A run follows the ledger, and the messages that reach the files are the ledger's. -/
lemma run_follows (h : Good L) (hs : Sound (view L)) (ss : List Step)
    (hss : ∀ s ∈ ss, s.Faultless) :
    Good (run L ss) ∧
      Follows (view L) (view (run L ss)) ((ledger (view L)).run (ops ss)) (reached L ss) ∧
        reached L ss = (ledger (view L)).reached (ops ss) := by
  induction ss generalizing L with
  | nil => exact ⟨h, Follows.refl hs, rfl⟩
  | cons s ss ih =>
    obtain ⟨hstep, hreaches⟩ := step_follows h hs (hss s List.mem_cons_self)
    obtain ⟨hgood, hfollows, hreached⟩ :=
      ih (step_good h s) hstep.sound fun t ht => hss t (List.mem_cons_of_mem s ht)
    rw [hstep.ledger_eq] at hfollows hreached
    rw [ops_cons, ledger_run_append, ledger_reached_append, reached, hreaches, hreached]
    refine ⟨hgood, ?_, rfl⟩
    rw [← hreached, ← hreaches]
    exact hstep.trans hfollows

/-- When no stream has anything left to write, the files hold what they held at first and the
messages that have reached them since. -/
lemma contents_of_follows {st₀ st : St} {A : Ledger} {es : List (ℕ × Str)} (h₀ : Sound st₀)
    (hnone : st₀.1 = none) (h : Follows st₀ st A es) (hext : st₀.2.dir.Extends st.2.dir)
    (hbuf : (stream st.1).buffer = []) (path : Str) :
    st.2.contents path = st₀.2.contents path ++ match st.2.names path with
      | some i => lines (Ledger.messagesOf i es)
      | none => [] := by
  have hstream : stream st₀.1 = .closed := by rw [hnone]; rfl
  cases hi : st.2.names path with
  | none =>
    have hnot : st₀.2.names path = none := hext.names_none hi
    simp [Disk.contents, hi, hnot]
  | some i =>
    have htext := h.text i
    rw [text, textOn_of_buffer hbuf (h.sound.dir path i hi)] at htext
    have hcontents : text st₀ i = st₀.2.contents path := by
      rw [text, hstream, Disk.contents]
      rcases hext.new path i hi with hold | hnew
      · have hold' : st₀.2.names path = some i := hold
        rw [hold', textOn_of_buffer rfl (h₀.dir path i hold)]
      · have hnot : st₀.2.names path = none := by
          cases hj : st₀.2.names path with
          | none => rfl
          | some j =>
            -- a path keeps its file, and this one is new
            have hij : j = i := Option.some.inj ((hext.keeps path j hj).symm.trans hi)
            exact absurd (h₀.dir path j hj) (Nat.not_lt.mpr (hij ▸ hnew))
        have hlt : ¬ i < st₀.2.fresh := Nat.not_lt.mpr hnew
        rw [hnot, textOn, if_neg hlt]
    rw [Disk.contents, hi, ← hcontents]
    exact htext

/-- The destructor writes out what the stream has left. -/
lemma destroy_follows {st₀ : St} {A : Ledger} {es : List (ℕ × Str)} (h : Good L)
    (hfollows : Follows st₀ (view L) A es) {last : Device} (hlast : last.Faultless) :
    Follows st₀ (view (L.destroy last).state) ⟨none, A.dir⟩ es ∧
      (L.destroy last).state.world.disk.dir = L.world.disk.dir := by
  have hrelease := release_follows hfollows.sound hlast
  have hview := view_destroy h last
  have hdisk : (L.destroy last).state.world.disk = release (view L).1 last L.world.disk :=
    congrArg Prod.snd hview
  refine ⟨?_, ?_⟩
  · have hboth := hfollows.trans hrelease
    have hdir : (view L).2.dir = A.dir := congrArg Ledger.dir hfollows.ledger_eq
    rw [List.append_nil, hdir] at hboth
    rw [hview]
    exact hboth
  · rw [hdisk]
    exact congrArg Ledger.dir hrelease.ledger_eq

/-- **The history of the log files.** For every run on a device without faults, with the
buffer written out at any moments: once the file sink is discarded or the `Logger` destroyed,
and with `flush_buffer` after every step, every file holds what it held at first followed by
the messages that reached it while a stream was open on it, in order and each on a line; and
this does not depend on `flush_buffer` or on when the buffer is written out. -/
theorem history_complete (d : Disk) (hd : d.dir.Sound) (ss : List Step)
    (hss : ∀ s ∈ ss, s.Faultless) :
    Complete d ss := by
  have hsound : Sound (view (Logger.new d)) := Sound.none hd
  obtain ⟨hgood, hfollows, hreached⟩ := run_follows (new_good d) hsound ss hss
  have hdir : (run (Logger.new d) ss).world.disk.dir =
      ((ledger (view (Logger.new d))).run (ops ss)).dir := congrArg Ledger.dir hfollows.ledger_eq
  have hext : d.dir.Extends (run (Logger.new d) ss).world.disk.dir := by
    rw [hdir]
    exact Ledger.run_extends (ledger (view (Logger.new d))) (ops ss)
  -- with nothing left in the buffer
  have hcontents : (stream (view (run (Logger.new d) ss)).1).buffer = [] → ∀ path,
      (run (Logger.new d) ss).world.disk.contents path = expected d ss path :=
    fun hbuf path => contents_of_follows hsound rfl hfollows hext hbuf path
  refine ⟨fun hnone => hcontents ?_, fun last hlast path => ?_, fun f hf hfl => hcontents ?_,
    fun ss' hss' hops => ?_⟩
  · rw [view_none hnone]
    rfl
  · obtain ⟨hend, hdir'⟩ := destroy_follows hgood hfollows hlast
    have hbuf : (stream (view ((run (Logger.new d) ss).destroy last).state).1).buffer = [] := by
      rw [view_destroy hgood]
      rfl
    have hnames : ((run (Logger.new d) ss).destroy last).state.world.disk.names =
        (run (Logger.new d) ss).world.disk.names := congrArg Directory.names hdir'
    refine (contents_of_follows hsound rfl hend (hdir'.symm ▸ hext) hbuf path).trans ?_
    rw [show (view ((run (Logger.new d) ss).destroy last).state).2.names = _ from hnames]
    rfl
  · rw [view_file hf]
    exact (hfollows.sound.sane f (by rw [view_file hf])).flushed hfl
  · obtain ⟨-, hfollows', hreached'⟩ := run_follows (new_good d) hsound ss' hss'
    have hdir' : (run (Logger.new d) ss').world.disk.dir =
        (run (Logger.new d) ss).world.disk.dir := by
      rw [hdir, ← hops]
      exact congrArg Ledger.dir hfollows'.ledger_eq
    have hnames : (run (Logger.new d) ss').world.disk.names =
        (run (Logger.new d) ss).world.disk.names := congrArg Directory.names hdir'
    funext path
    rw [expected, expected, hnames, hreached', hreached, hops]

/-- Two messages around a re-initialisation on the same path, and a spill in between. -/
theorem history_complete_reinit :
    Complete Disk.empty
      [.op (.initFileSink true .ealDebug "%m".toList [] "a.log".toList false) Device.willing,
        .op (LogCall.op Env.bare (.plain 0 [] "one".toList .ealInfo)) Device.willing,
        .spill 2,
        .op (.initFileSink true .ealDebug "%s: %m".toList [] "a.log".toList true) Device.willing,
        .op (LogCall.op Env.bare (.plain 0 [] "two".toList .ealInfo)) Device.willing,
        .op (.discardSink .ealFileSimple) Device.willing] :=
  history_complete _ Disk.empty_sound _
    (by simp [Step.Faultless, Device.willing_faultless])

end History

end Ealogger
