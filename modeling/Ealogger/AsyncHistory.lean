import Ealogger.Clients
import Ealogger.History

/-!
The log files of an asynchronous `Logger`, from the calls of its clients to the disk.

On a device without faults a file holds what it held at first and then, line by line, the
messages that the ledger of the file sink records when the calls of all clients are made in one
order. Queue, background thread, streams and buffers do not show.
-/

namespace Ealogger.AsyncHistory

open Streams FileView FileFailure Clients Slice
open FileToggle (lines)
open Delivery (Accounted)

variable {ι : Type} [DecidableEq ι] {env : Env} {L : Logger}

/-- What a file holds when the operations have been executed and all streams are closed. -/
def written (d : Disk) (os : List Op) (path : Str) : Str :=
  d.contents path ++ match ((⟨none, d.dir⟩ : Ledger).run os).dir.names path with
    | some i => lines (Ledger.messagesOf i ((⟨none, d.dir⟩ : Ledger).reached os))
    | none => []

/-! ### Synchronous runs -/

lemma run_follows (h : Good L) (hs : Sound (view L)) (os : List (Op × Device))
    (hdev : ∀ o ∈ os, o.2.Faultless) :
    Follows (view L) (view (L.run os)) ((ledger (view L)).run (os.map Prod.fst))
      ((ledger (view L)).reached (os.map Prod.fst)) := by
  induction os generalizing L with
  | nil => exact Follows.refl hs
  | cons o os ih =>
    have hstep := exec_follows hs o.1 (hdev o List.mem_cons_self)
    have hview : view (L.exec o).state = FileView.exec (o.1, o.2) (view L) := view_exec h o
    rw [← hview] at hstep
    have hrest := ih (exec_does h o).good hstep.sound fun o' ho' =>
      hdev o' (List.mem_cons_of_mem o ho')
    rw [hstep.ledger_eq] at hrest
    exact hstep.trans hrest

section Sync

variable {d : Disk} {os : List (Op × Device)}

/-- When nothing is left in a buffer, a file holds what is written. -/
lemma contents_of_follows {st : St} {A : Ledger} (hd : d.dir.Sound)
    (hdir : A.dir = ((⟨none, d.dir⟩ : Ledger).run (os.map Prod.fst)).dir)
    (h : Follows (view (Logger.new d)) st A
      ((⟨none, d.dir⟩ : Ledger).reached (os.map Prod.fst)))
    (hbuf : (stream st.1).buffer = []) (path : Str) :
    st.2.contents path = written d (os.map Prod.fst) path := by
  have hst : st.2.dir = A.dir := congrArg Ledger.dir h.ledger_eq
  have hext : d.dir.Extends st.2.dir := by
    rw [hst, hdir]
    exact Ledger.run_extends ⟨none, d.dir⟩ _
  have hnames : st.2.names =
      ((⟨none, d.dir⟩ : Ledger).run (os.map Prod.fst)).dir.names :=
    congrArg Directory.names (hst.trans hdir)
  have hcontents := History.contents_of_follows (Sound.none hd) rfl h hext hbuf path
  rw [hnames] at hcontents
  exact hcontents

lemma settled_of_run (hd : d.dir.Sound) (hdev : ∀ o ∈ os, o.2.Faultless)
    (hbuf : ∀ f, (view ((Logger.new d).run os)).1 = some f → f.flushBuffer = true) (path : Str) :
    ((Logger.new d).run os).world.disk.contents path = written d (os.map Prod.fst) path := by
  have hfollows := run_follows (new_good d) (Sound.none hd) os hdev
  refine contents_of_follows hd rfl hfollows ?_ path
  cases hf : (view ((Logger.new d).run os)).1 with
  | none => rfl
  | some f => exact (hfollows.sound.sane f hf).flushed (hbuf f hf)

/-- The destructor writes out what is left. -/
lemma destroyed_of_run (hd : d.dir.Sound) (hdev : ∀ o ∈ os, o.2.Faultless) {last : Device}
    (hlast : last.Faultless) (path : Str) :
    (release (view ((Logger.new d).run os)).1 last
      ((Logger.new d).run os).world.disk).contents path = written d (os.map Prod.fst) path := by
  have hgood : Good ((Logger.new d).run os) := run_good (new_good d) os
  have hfollows := run_follows (new_good d) (Sound.none hd) os hdev
  obtain ⟨hend, -⟩ := History.destroy_follows hgood hfollows hlast
  rw [view_destroy hgood] at hend
  refine contents_of_follows hd ?_ hend rfl path
  rfl

end Sync

/-! ### Asynchronous runs -/

/-- The file sink and the disk are all in the slice. -/
lemma view_congr {L L' : Logger} (h : slice .ealFileSimple L = slice .ealFileSimple L') :
    view L = view L' := by
  have hmap : L.loggerSinkMap .ealFileSimple = L'.loggerSinkMap .ealFileSimple := by
    rw [← slice_map_self .ealFileSimple L, h, slice_map_self]
  have hdisk : L.world.disk = L'.world.disk := congrArg (fun L => L.world.disk) h
  simp only [view, hmap, hdisk]

/-- One order of the calls of all clients that explains what the files hold; the calls `rest` of
`write_log` have not got there yet. -/
structure Logged (env : Env) (d : Disk) (setup : List (Op × Device)) (as : List (Label ι))
    (s : Async ι) (eff : List (Effect ι)) (rest : ι → List LogCall) : Prop where
  linearized : Linearized env ((Logger.new d).run setup) .ealFileSimple as s eff rest
  /-- With `flush_buffer`, or without a file sink, there is nothing to wait for. -/
  settled : (∀ f, (view s.logger).1 = some f → f.flushBuffer = true) → ∀ path,
    s.logger.world.disk.contents path =
      written d (setup.map Prod.fst ++ eff.map fun e => e.2.1) path
  destroyed : ∀ last : Device, last.Faultless → ∀ path,
    (s.logger.destroy last).state.world.disk.contents path =
      written d (setup.map Prod.fst ++ eff.map fun e => e.2.1) path

/-- A log file without `flush_buffer`. -/
def buffered : List (Op × Device) :=
  [(.initFileSink true .ealDebug "%m".toList [] "a.log".toList false, Device.willing)]

/-- One client logs, the other changes the template while the message is in the queue, and the
destructor waits for the queue. -/
def templateOvertakes : List (Label Bool) :=
  let m := (LogCall.plain 0 [] "a".toList .ealInfo).message
  let bye := (exitCall 0).message
  [.call true (.plain 0 [] "a".toList .ealInfo), .push true m,
    .sinkCall false (.setMsgTemplate .ealFileSimple "%s".toList) Device.willing, .test, .pop m,
    .skip .ealConsole, .skip .ealSyslog, .hand .ealFileSimple m Device.willing, .finish m, .test,
    .destroy, .poll, .setStop, .pushExit bye, .pop bye, .skip .ealConsole, .skip .ealSyslog,
    .hand .ealFileSimple bye Device.willing, .finish bye, .test, .join]

end Ealogger.AsyncHistory
