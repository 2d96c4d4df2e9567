import Ealogger.SinkFile

/-!
Messages written after a write has failed.

`write_message` swallows what a failing write throws and leaves the stream open with its error
bits set. From then on the stream takes nothing in, whatever the device would accept.
-/

namespace Ealogger.WriteFailure

open Streams

abbrev St := SinkFile × Disk

/-- A call of `write_message`, with the answers of the device. -/
abbrev Write := Str × Device

def step (st : St) (w : Write) : St := (st.1.writeMessage w.2 w.1 st.2).state

def run (st : St) (ws : List Write) : St := ws.foldl step st

/-- What has been appended to the file that the stream holds open, as far as it has been
buffered. -/
def text (st : St) : Str :=
  match st.1.fileStream.file with
  | some i => st.2.data i ++ st.1.fileStream.buffer
  | none => []

/-- Every message written at a moment when the device accepts it is appended. -/
def Recovers (st : St) (ws : List Write) : Prop :=
  ∀ pre msg dev post, ws = pre ++ (msg, dev) :: post → dev.accepts st.1.flushBuffer = true →
    text (run st (pre ++ [(msg, dev)])) = text (run st pre) ++ msg ++ ['\n']

@[simp] lemma run_cons (st : St) (w : Write) (ws : List Write) :
    run st (w :: ws) = run (step st w) ws := rfl

lemma run_snoc (st : St) (ws : List Write) (w : Write) :
    run st (ws ++ [w]) = step (run st ws) w := by
  simp [run]

/-! ### One write -/

lemma step_flushBuffer (st : St) (w : Write) : (step st w).1.flushBuffer = st.1.flushBuffer := rfl

lemma step_file (st : St) (w : Write) : (step st w).1.fileStream.file = st.1.fileStream.file :=
  (SinkFile.writeMessage_stream st.1 w.2 st.2 w.1).1

/-- A stream in a failed state takes nothing in. -/
lemma step_of_fail {st : St} (hfail : st.1.fileStream.fail = true) (w : Write) :
    step st w = st := by
  obtain ⟨f, d⟩ := st
  have hins : ∀ t a, (f.fileStream.insert t a d).state = (f.fileStream, d) :=
    OFStream.insert_of_fail _ _ hfail
  have hflush : ∀ a, (f.fileStream.flush a d).state = (f.fileStream, d) :=
    OFStream.flush_of_fail _ _ hfail
  simp only [step, SinkFile.writeMessage, SinkFile.onStream, Call.map_state, Call.catchAll_state]
  split
  · let p : OFStream Char × Disk → Prop := fun st => st = (f.fileStream, d)
    have hstate : p (((f.fileStream.insert w.1 w.2.insert d).andThen fun st =>
        st.1.insert ['\n'] w.2.newline st.2).andThen fun st =>
          if f.flushBuffer then st.1.flush w.2.flush st.2 else .ret st).state := by
      refine Call.andThen_state (p := p) (Call.andThen_state (p := p) (hins _ _) ?_) ?_
      · rintro _ rfl
        exact hins _ _
      · rintro _ rfl
        split
        · exact hflush _
        · rfl
    rw [hstate]
  · rfl

/-- A write that the device refuses leaves the error bits set. -/
lemma step_refused {f : SinkFile} {d : Disk} (hopen : f.fileStream.isOpen = true)
    (hfail : f.fileStream.fail = false) {dev : Device} (hdev : dev.accepts f.flushBuffer = false)
    (msg : Str) : (step (f, d) (msg, dev)).1.fileStream.fail = true := by
  let p : OFStream Char × Disk → Prop := fun st => st.1.fail = true
  have hflush : ∀ st : OFStream Char × Disk, p st →
      p (if f.flushBuffer then st.1.flush dev.flush st.2 else .ret st).state := by
    intro st hst
    split
    · simpa only [p, OFStream.flush_of_fail _ _ hst] using hst
    · exact hst
  simp only [step, SinkFile.writeMessage, SinkFile.onStream, Call.map_state,
    Call.catchAll_state, hopen, if_true]
  cases h1 : dev.insert.ok with
  | false =>
    refine Call.andThen_state (p := p) (Call.andThen_state (p := p) ?_ fun st hst => ?_) hflush
    · simp only [p, OFStream.insert_fail _ _ hopen, h1, Bool.not_false, Bool.or_true]
    · simpa only [p, OFStream.insert_of_fail _ _ hst] using hst
  | true =>
    obtain ⟨s1, d1, e1, ht1⟩ := OFStream.insert_takes (d := d) hopen hfail h1 msg
    have hopen1 : s1.isOpen = true := (OFStream.isOpen_eq ht1.file).trans hopen
    rw [e1, Call.ret_andThen]
    cases h2 : dev.newline.ok with
    | false =>
      refine Call.andThen_state (p := p) ?_ hflush
      simp only [p, OFStream.insert_fail _ _ hopen1, h2, Bool.not_false, Bool.or_true]
    | true =>
      obtain ⟨s2, d2, e2, -⟩ :=
        OFStream.insert_takes (d := d1) hopen1 (ht1.fail.trans hfail) h2 ['\n']
      have h3 : f.flushBuffer = true ∧ dev.flush.ok = false := by
        simpa [Device.accepts, h1, h2] using hdev
      rw [e2, Call.ret_andThen, if_pos h3.1, OFStream.flush_fail, h3.2]
      simp

lemma step_fail {st : St} (hopen : st.1.fileStream.isOpen = true) (w : Write) :
    (step st w).1.fileStream.fail =
      (st.1.fileStream.fail || !w.2.accepts st.1.flushBuffer) := by
  obtain ⟨f, d⟩ := st
  cases hfail : f.fileStream.fail with
  | true =>
    rw [step_of_fail hfail, hfail]
    rfl
  | false =>
    cases hdev : w.2.accepts f.flushBuffer with
    | true =>
      obtain ⟨s, d', he, ht, -⟩ := SinkFile.writeMessage_takes (d := d) hopen hfail hdev w.1
      simp [step, he, ht.fail, hfail]
    | false => exact step_refused hopen hfail hdev w.1

/-- A write appends its message exactly if the stream is in a good state and the device
accepts. -/
lemma step_text_iff {st : St} (hopen : st.1.fileStream.isOpen = true) {msg : Str} {dev : Device}
    (hdev : dev.accepts st.1.flushBuffer = true) :
    text (step st (msg, dev)) = text st ++ msg ++ ['\n'] ↔ st.1.fileStream.fail = false := by
  obtain ⟨f, d⟩ := st
  obtain ⟨i, hi⟩ : ∃ i, f.fileStream.file = some i := Option.isSome_iff_exists.mp hopen
  cases hfail : f.fileStream.fail with
  | true =>
    rw [step_of_fail hfail]
    refine iff_of_false (fun h => ?_) (by simp)
    have hlen := congrArg List.length h
    simp only [List.length_append, List.length_singleton] at hlen
    omega
  | false =>
    obtain ⟨s, d', he, ht, -⟩ := SinkFile.writeMessage_takes (d := d) hopen hfail hdev msg
    have htext := ht.intake i
    rw [OFStream.intake_self (ht.file.trans hi), OFStream.intake_self hi, if_pos hi] at htext
    simp [step, text, he, ht.file, hi, htext]

/-! ### Runs -/

lemma run_isOpen {st : St} (hopen : st.1.fileStream.isOpen = true) (ws : List Write) :
    (run st ws).1.fileStream.isOpen = true := by
  induction ws generalizing st with
  | nil => exact hopen
  | cons w ws ih =>
    refine ih ?_
    unfold OFStream.isOpen at hopen ⊢
    rw [step_file]
    exact hopen

lemma run_flushBuffer (st : St) (ws : List Write) :
    (run st ws).1.flushBuffer = st.1.flushBuffer := by
  induction ws generalizing st with
  | nil => rfl
  | cons w ws ih => exact ih (step st w)

/-- The stream is in a good state as long as nothing has failed. -/
lemma run_fail_eq_false_iff {st : St} (hopen : st.1.fileStream.isOpen = true)
    (ws : List Write) : (run st ws).1.fileStream.fail = false ↔
      st.1.fileStream.fail = false ∧ ∀ w ∈ ws, w.2.accepts st.1.flushBuffer = true := by
  induction ws generalizing st with
  | nil => simp [run]
  | cons w ws ih =>
    have hopen' : (step st w).1.fileStream.isOpen = true := run_isOpen hopen [w]
    rw [run_cons, ih hopen', step_fail hopen, step_flushBuffer, List.forall_mem_cons,
      Bool.or_eq_false_iff, Bool.not_eq_false', and_assoc]

/-- **When only the failing writes are lost.** For every run of writes on an open stream and
all answers of the device: exactly if the stream was in a good state at first and every write
before one that the device accepts has been accepted as well. -/
theorem recovers_iff (st : St) (ws : List Write) (hopen : st.1.fileStream.isOpen = true) :
    Recovers st ws ↔ ∀ pre msg dev post, ws = pre ++ (msg, dev) :: post →
      dev.accepts st.1.flushBuffer = true →
        st.1.fileStream.fail = false ∧ ∀ w ∈ pre, w.2.accepts st.1.flushBuffer = true := by
  have hiff : ∀ pre msg dev, dev.accepts st.1.flushBuffer = true →
      (text (run st (pre ++ [(msg, dev)])) = text (run st pre) ++ msg ++ ['\n'] ↔
        st.1.fileStream.fail = false ∧ ∀ w ∈ pre, w.2.accepts st.1.flushBuffer = true) := by
    intro pre msg dev hdev
    rw [run_snoc, step_text_iff (run_isOpen hopen pre) (by rwa [run_flushBuffer]),
      run_fail_eq_false_iff hopen]
  constructor
  · intro h pre msg dev post hws hdev
    exact (hiff pre msg dev hdev).mp (h pre msg dev post hws hdev)
  · intro h pre msg dev post hws hdev
    exact (hiff pre msg dev hdev).mpr (h pre msg dev post hws hdev)

/-- A sink whose log file has just been opened. -/
def opened : St :=
  (SinkFile.new "%m".toList [] true .ealDebug "a.log".toList true Device.willing Disk.empty).state

theorem recovers_iff_opened :
    Recovers opened [("a".toList, Device.willing), ("b".toList, Device.willing)] ↔
      ∀ pre msg dev post, [("a".toList, Device.willing), ("b".toList, Device.willing)] =
        pre ++ (msg, dev) :: post → dev.accepts opened.1.flushBuffer = true →
          opened.1.fileStream.fail = false ∧
            ∀ w ∈ pre, w.2.accepts opened.1.flushBuffer = true :=
  recovers_iff opened _ rfl

/-- After one flush has failed, the next message is lost on a device that has recovered. -/
theorem recovers_fails_after_flush :
    ¬ ∀ (st : St) (ws : List Write), st.1.fileStream.isOpen = true →
      st.1.fileStream.fail = false → Recovers st ws := by
  intro h
  have hlost := h opened
    [("a".toList, { Device.willing with flush := ⟨false, 0⟩ }), ("b".toList, Device.willing)]
    rfl rfl [("a".toList, { Device.willing with flush := ⟨false, 0⟩ })] "b".toList Device.willing
    [] rfl rfl
  exact absurd hlost (by decide)

end Ealogger.WriteFailure
