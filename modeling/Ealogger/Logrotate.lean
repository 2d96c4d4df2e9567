import Ealogger.Ledger

/-!
Rotating the log file under a running `Logger`.

`logrotate` renames the log file away and sends `SIGUSR1`. The handler sets a flag that no
code reads: the stream stays on the file it was opened on, under whatever name. Messages
after the signal reach the file of the configured path only if something else has taken the
stream there.
-/

namespace Ealogger.Logrotate

open Streams FileView FileFailure
open FileToggle (lines)

/-- `SIGUSR1` on Linux. -/
def sigusr1 : ℕ := 10

structure State where
  logger : Logger
  /-- The static member `signal_SIGUSR1`. -/
  signalSIGUSR1 : Bool

inductive Event
  | op (o : Op) (dev : Device)
  | rename (src dst : Str)
  | signal (signo : ℕ)

def init (d : Disk) : State := ⟨Logger.new d, false⟩

/-- The signal handler. -/
def logrotate (signo : ℕ) (s : State) : State :=
  if signo = sigusr1 then { s with signalSIGUSR1 := true } else s

def renameFile (src dst : Str) (L : Logger) : Logger :=
  { L with world := { L.world with disk := L.world.disk.rename src dst } }

def step (s : State) : Event → State
  | .op o dev => { s with logger := (s.logger.exec (o, dev)).state }
  | .rename src dst => { s with logger := renameFile src dst s.logger }
  | .signal signo => logrotate signo s

def run (s : State) (es : List Event) : State := es.foldl step s

def Event.Faultless : Event → Prop
  | .op _ dev => dev.Faultless
  | _ => True

/-- The messages that reach `write_message` in a step while a stream is open, with the file
it is open on. -/
def reaches (s : State) : Event → List (ℕ × Str)
  | .op o _ => (ledger (view s.logger)).reaches o
  | _ => []

def reached (s : State) : List Event → List (ℕ × Str)
  | [] => []
  | e :: es => reaches s e ++ reached (step s e) es

/-- The text of the file that a path names, with what the stream has still to write to it. -/
def pathText (L : Logger) (path : Str) : Str :=
  match L.world.disk.names path with
  | some i => text (view L) i
  | none => []

/-- The events end in a message that the file sink `f` lets through, as `msg`, after the
handler has run. -/
structure LetThrough (d : Disk) (pre : List Event) (o : Op) (f : SinkFile) (msg : Str) : Prop where
  signalled : (run (init d) pre).signalSIGUSR1 = true
  sink : (run (init d) pre).logger.loggerSinkMap .ealFileSimple = some (.file f)
  message : ∃ env now stack text lvl file lnumber func,
    o = .writeLog env now stack text lvl file lnumber func ∧
      f.toSink.prepareLogMessage env (LogMessage.build now stack text lvl file lnumber func) =
        some msg

structure Rotates (d : Disk) (es : List Event) : Prop where
  /-- What a stream has been given is in its file, whatever the file is called by now. -/
  kept : ∀ i, text (view (run (init d) es).logger) i =
    text (none, d) i ++ lines (Ledger.messagesOf i (reached (init d) es))
  /-- What is let through after the signal is appended to the file that the path names. -/
  appended : ∀ pre o dev post f msg, es = pre ++ .op o dev :: post → LetThrough d pre o f msg →
    pathText (run (init d) (pre ++ [.op o dev])).logger f.logFile =
      pathText (run (init d) pre).logger f.logFile ++ msg ++ ['\n']

/-- The stream is open on the file that its path names. -/
def Attached (L : Logger) (f : SinkFile) : Prop :=
  ∃ i, f.fileStream.file = some i ∧ L.world.disk.names f.logFile = some i

/-! ### Steps and runs -/

lemma step_good {s : State} (h : Good s.logger) (e : Event) : Good (step s e).logger := by
  cases e with
  | op o dev => exact (exec_does h (o, dev)).good
  | rename src dst => exact ⟨h.masked, h.sorted⟩
  | signal signo =>
    simp only [step, logrotate]
    split <;> exact h

lemma rename_follows {L : Logger} (h : Sound (view L)) (src dst : Str) :
    ∃ A, Follows (view L) (view (renameFile src dst L)) A [] := by
  have hfresh : (L.world.disk.rename src dst).dir.fresh = L.world.disk.dir.fresh :=
    Disk.rename_fresh L.world.disk src dst
  refine ⟨_, ⟨Disk.rename_sound h.dir src dst, fun f hf => ?_⟩, rfl, fun i => ?_⟩
  · exact (h.sane f hf).congr (Nat.le_of_eq hfresh.symm)
  · have htext : text (view (renameFile src dst L)) i = text (view L) i := by
      change textOn (stream (view L).1) (L.world.disk.rename src dst) i = _
      rw [textOn, Disk.rename_fresh, OFStream.intake, Disk.rename_data]
      rfl
    simp [htext, lines]

lemma step_follows {s : State} (h : Good s.logger) (hs : Sound (view s.logger)) {e : Event}
    (hdev : e.Faultless) :
    ∃ A, Follows (view s.logger) (view (step s e).logger) A (reaches s e) := by
  cases e with
  | op o dev =>
    simp only [step, view_exec h]
    exact ⟨_, exec_follows hs o hdev⟩
  | rename src dst => exact rename_follows hs src dst
  | signal signo =>
    simp only [step, logrotate]
    split <;> exact ⟨_, Follows.refl hs⟩

lemma run_follows {s : State} (h : Good s.logger) (hs : Sound (view s.logger)) (es : List Event)
    (hes : ∀ e ∈ es, e.Faultless) :
    Good (run s es).logger ∧
      ∃ A, Follows (view s.logger) (view (run s es).logger) A (reached s es) := by
  induction es generalizing s with
  | nil => exact ⟨h, _, Follows.refl hs⟩
  | cons e es ih =>
    obtain ⟨A, hstep⟩ := step_follows h hs (hes e List.mem_cons_self)
    obtain ⟨hgood, A', hfollows⟩ :=
      ih (step_good h e) hstep.sound fun t ht => hes t (List.mem_cons_of_mem e ht)
    exact ⟨hgood, A', hstep.trans hfollows⟩

/-- A message that is let through is appended to the file of the path exactly if the stream
is open on that file. -/
lemma appended_iff {L : Logger} (h : Good L) (hs : Sound (view L)) {f : SinkFile}
    (hf : L.loggerSinkMap .ealFileSimple = some (.file f)) {env : Env} {now : Int}
    {stack : List Str} {text : Str} {lvl : LogLevel} {file : Str} {lnumber : Int} {func : Str}
    {msg : Str} (hm : f.toSink.prepareLogMessage env
      (LogMessage.build now stack text lvl file lnumber func) = some msg)
    {dev : Device} (hdev : dev.Faultless) :
    pathText (L.exec (.writeLog env now stack text lvl file lnumber func, dev)).state f.logFile =
      pathText L f.logFile ++ msg ++ ['\n'] ↔ Attached L f := by
  have hfollows := exec_follows hs (.writeLog env now stack text lvl file lnumber func) hdev
  rw [← view_exec h] at hfollows
  generalize (L.exec (.writeLog env now stack text lvl file lnumber func, dev)).state = L'
    at hfollows ⊢
  have hnames : L'.world.disk.names = L.world.disk.names :=
    congrArg (fun A : Ledger => A.dir.names) hfollows.ledger_eq
  have hreached : (ledger (view L)).reaches (.writeLog env now stack text lvl file lnumber func) =
      (f.fileStream.file.map fun i => (i, msg)).toList := by
    have hentry : (ledger (view L)).entry = some ⟨f.toSink, f.logFile, f.fileStream.file⟩ := by
      rw [view_file hf]
      rfl
    rw [Ledger.reaches, Ledger.received_some hentry, hm]
  -- a line is longer than no line
  have hlost : ∀ t : Str, t ≠ t ++ msg ++ ['\n'] := by
    intro t ht
    have hlen := congrArg List.length ht
    simp only [List.length_append, List.length_singleton] at hlen
    omega
  unfold pathText Attached
  rw [hnames]
  cases hi : L.world.disk.names f.logFile with
  | none => exact iff_of_false (by simp) (by simp)
  | some i =>
    have htext := hfollows.text i
    rw [hreached, Ledger.messagesOf_toList] at htext
    by_cases hfile : f.fileStream.file = some i
    · refine iff_of_true ?_ ⟨i, hfile, rfl⟩
      simpa [hfile, lines] using htext
    · have hsame : FileView.text (view L') i = FileView.text (view L) i := by
        simpa [hfile, lines] using htext
      refine iff_of_false (fun heq => hlost _ (hsame.symm.trans heq)) ?_
      rintro ⟨k, hk, hk'⟩
      exact hfile (hk.trans hk'.symm)

/-- **When rotation works.** For every run of operations, renames and signals on a device
without faults: exactly if each time a message is let through after the handler has run, the
stream is open on the file that the path names at that moment. -/
theorem rotates_iff (d : Disk) (hd : d.dir.Sound) (es : List Event)
    (hes : ∀ e ∈ es, e.Faultless) :
    Rotates d es ↔ ∀ pre o dev post f msg, es = pre ++ .op o dev :: post →
      LetThrough d pre o f msg → Attached (run (init d) pre).logger f := by
  have hgood : Good (init d).logger := new_good d
  have hsound : Sound (view (init d).logger) := Sound.none hd
  have hiff : ∀ pre o dev post f msg, es = pre ++ .op o dev :: post → LetThrough d pre o f msg →
      (pathText (run (init d) (pre ++ [.op o dev])).logger f.logFile =
        pathText (run (init d) pre).logger f.logFile ++ msg ++ ['\n'] ↔
          Attached (run (init d) pre).logger f) := by
    rintro pre o dev post f msg rfl hlet
    obtain ⟨env, now, stack, text, lvl, file, lnumber, func, rfl, hm⟩ := hlet.message
    obtain ⟨hpre, A, hfollows⟩ :=
      run_follows hgood hsound pre fun e he => hes e (List.mem_append_left _ he)
    have hdev : dev.Faultless := hes (.op (.writeLog env now stack text lvl file lnumber func) dev)
      (List.mem_append_right pre List.mem_cons_self)
    rw [run, List.foldl_append]
    exact appended_iff hpre hfollows.sound hlet.sink hm hdev
  constructor
  · intro h pre o dev post f msg hes' hlet
    exact (hiff pre o dev post f msg hes' hlet).mp (h.appended pre o dev post f msg hes' hlet)
  · intro h
    obtain ⟨-, A, hfollows⟩ := run_follows hgood hsound es hes
    refine ⟨hfollows.text, fun pre o dev post f msg hes' hlet => ?_⟩
    exact (hiff pre o dev post f msg hes' hlet).mpr (h pre o dev post f msg hes' hlet)

/-- A sink that is initialised again after the signal. -/
def reinitialised : List Event :=
  [.op (.initFileSink true .ealDebug "%m".toList [] "a.log".toList true) Device.willing,
    .rename "a.log".toList "a.log.1".toList, .signal sigusr1,
    .op (.initFileSink true .ealDebug "%m".toList [] "a.log".toList true) Device.willing,
    .op (LogCall.op Env.bare (.plain 0 [] "two".toList .ealInfo)) Device.willing]

theorem rotates_iff_reinitialised :
    Rotates Disk.empty reinitialised ↔ ∀ pre o dev post f msg,
      reinitialised = pre ++ .op o dev :: post → LetThrough Disk.empty pre o f msg →
        Attached (run (init Disk.empty) pre).logger f :=
  rotates_iff _ Disk.empty_sound _
    (by simp [reinitialised, Event.Faultless, Device.willing_faultless])

/-- After a rename and a signal the next message goes to the old file, and there is no new
one. -/
theorem rotates_fails_after_rename :
    ¬ ∀ (d : Disk) (es : List Event), d.dir.Sound → (∀ e ∈ es, e.Faultless) → Rotates d es := by
  intro h
  let pre : List Event :=
    [.op (.initFileSink true .ealDebug "%m".toList [] "a.log".toList true) Device.willing,
      .rename "a.log".toList "a.log.1".toList, .signal sigusr1]
  let o := LogCall.op Env.bare (.plain 0 [] "two".toList .ealInfo)
  have hrun := h Disk.empty (pre ++ [.op o Device.willing]) Disk.empty_sound
    (by simp [pre, Event.Faultless, Device.willing_faultless])
  have hlost := hrun.appended pre o Device.willing [] _ "two".toList rfl
    ⟨rfl, rfl, Env.bare, 0, [], "two".toList, .ealInfo, [], 0, [], rfl, rfl⟩
  exact absurd hlost (by decide)

end Ealogger.Logrotate
