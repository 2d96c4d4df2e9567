import Ealogger.AsyncQueue
import Ealogger.Statements
import Ealogger.Threads

/-!
The `Logger` statement by statement, synchronous and asynchronous.
-/

namespace Ealogger.Interleaving

open Slice FileFailure
open Turns (Turn)
open Statements (System present)
open Wakeup (Waiting)

variable {ι : Type} [DecidableEq ι] {env : Env} {L L' : Logger} {k : LoggerSink} {dev : Device}

/-! ### The operations as turns -/

lemma exec_turn (L : Logger) {o : Op} {t : Turn} (ht : Turns.Op.turn dev o = some t) :
    t.exec env L = (L.exec (o, dev)).state := by
  cases o <;> cases ht <;> rfl

lemma turn_isSome {o : Op} (ho : o.onSinks = true) (dev : Device) :
    ∃ t, Turns.Op.turn dev o = some t := by
  cases o <;> first | exact ⟨_, rfl⟩ | exact absurd ho nofun

lemma rebuilds_turn (L : Logger) {o : Op} {t : Turn} (ht : Turns.Op.turn dev o = some t) :
    o.rebuilds L = Statements.rebuilds L t := by
  cases o <;> cases ht <;> simp [Op.rebuilds, Statements.rebuilds, present]

lemma rebuilds_congr {t : Turn} (h : present L t.key = present L' t.key) :
    Statements.rebuilds L t = Statements.rebuilds L' t := by
  cases t <;> simp_all [Statements.rebuilds, Turn.key]

/-! ### Any number of threads, and no background thread -/

/-- A synchronous `Logger`. -/
def sync (env : Env) : System (Threads.Sync ι) (Threads.Label ι) ι where
  lts := Threads.lts env
  logger := Threads.Sync.logger
  withLogger s L := { s with logger := L }
  turn
    | .hand i j c dev => some (i, .prepareLogMessage j c.message dev)
    | .sinkCall i o dev => (Turns.Op.turn dev o).map (Prod.mk i)
    | _ => none
  idle
    | .call j _, i => i = j
    | .hand j _ _ _, i => i = j
    | .skip j _ _, i => i = j
    | .finish j, i => i = j
    | .sinkCall j _ _, i => i = j
  looks
    | .hand _ j _ _, k => k = j
    | .skip _ j _, k => k = j
    | .sinkCall _ o dev, k => ∃ t, Turns.Op.turn dev o = some t ∧ t.key = k
    | _, _ => False
  iterates s := ∃ i, s.inside i ≠ none

lemma sync_lawful (env : Env) : (sync (ι := ι) env).Lawful env where
  logger_with _ _ := rfl
  with_with _ _ _ := rfl
  with_logger _ := rfl
  iterates_with _ _ := Iff.rfl
  next_logger a s ha := by
    cases a with
    | sinkCall i o dev =>
      obtain ⟨t, ht⟩ := turn_isSome ha.2.1 dev
      simp only [sync, ht, Option.map_some, exec_turn s.logger ht]
      rfl
    | _ => rfl
  next_with a s L L' := by
    cases a <;> rfl
  enabled_with a s L ha hlook := by
    cases a with
    | call i c => exact ha
    | hand i j c dev => exact ⟨ha.1, (hlook j rfl).symm.trans ha.2⟩
    | skip i j c =>
      have hsame : present s.logger j = present L j := hlook j rfl
      have habsent : L.loggerSinkMap j = none := by simpa [present, ha.2] using hsame
      exact ⟨ha.1, habsent⟩
    | finish i => exact ha
    | sinkCall i o dev =>
      obtain ⟨hnone, ho, halone⟩ := ha
      obtain ⟨t, ht⟩ := turn_isSome ho dev
      refine ⟨hnone, ho, fun hr => halone ?_⟩
      rw [rebuilds_turn _ ht] at hr ⊢
      exact (rebuilds_congr (hlook t.key ⟨t, ht, rfl⟩)).trans hr
  looks_for a s k ha hk := by
    cases a with
    | call i c => exact absurd hk id
    | hand i j c dev => exact .inl ⟨i, _, rfl, hk.symm⟩
    | skip i j c =>
      obtain ⟨⟨rest, hin⟩, -⟩ := ha
      exact .inr ⟨i, by simp [hin]⟩
    | finish i => exact absurd hk id
    | sinkCall i o dev =>
      obtain ⟨t, ht, hkey⟩ := hk
      exact .inl ⟨i, t, by simp [sync, ht], hkey⟩
  turn_idle a i t ht := by
    cases a with
    | hand j k c dev =>
      cases ht
      rfl
    | sinkCall j o dev =>
      obtain ⟨u, hu, heq⟩ := Option.map_eq_some_iff.mp ht
      cases heq
      rfl
    | _ => cases ht
  rebuilds_alone a s i t ha ht hr := by
    cases a with
    | hand j k c dev =>
      cases ht
      simp [Statements.rebuilds] at hr
    | sinkCall j o dev =>
      obtain ⟨u, hu, heq⟩ := Option.map_eq_some_iff.mp ht
      cases heq
      rintro ⟨j', hj'⟩
      exact hj' (ha.2.2 ((rebuilds_turn s.logger hu).trans hr) j')
    | _ => cases ht

/-- A mutex has one holder, and a sink whose mutex is free is what it is after the calls that have
taken effect there, one after the other; for each thread they are its calls in the order of its
program, all but the one that is still to get there. -/
structure Serial (env : Env) (L : Logger) (as : List (Threads.Label ι))
    (s : Statements.State (Threads.Sync ι) ι) : Prop where
  exclusive : ∀ i j k, (s.phase i).holds = some k → (s.phase j).holds = some k → i = j
  sinks : ∀ k, s.owner k = none →
    slice k s.system.logger = slice k (L.run ((Threads.effects env k as).map Prod.snd))
  order : ∀ k i, (Clients.byClient i (Threads.effects env k as)).map Prod.fst ++
    Threads.ahead env k (s.system.inside i) = Threads.issued env i as

/-- **Statement by statement.** For any number of threads in a synchronous `Logger`. -/
theorem serial_of_legal (env : Env) (d : Disk) (setup : List (Op × Device))
    (xs : List (Statements.Label (Threads.Label ι) ι))
    (h : (Statements.lts (sync env) env).Legal
      (Statements.start (Threads.start ((Logger.new d).run setup))) xs) :
    Serial env ((Logger.new d).run setup) (xs.flatMap Statements.atomic)
      ((Statements.lts (sync env) env).run
        (Statements.start (Threads.start ((Logger.new d).run setup))) xs) := by
  have hL : Good ((Logger.new d).run setup) := run_good (FileView.new_good d) setup
  obtain ⟨hlegal, hrefines⟩ := Statements.refines_run (sync_lawful env)
    (t := Threads.start ((Logger.new d).run setup)) hL h
  have hexplains := Threads.explained_of_legal hL hlegal
  refine ⟨fun i j k => hrefines.behind.owned.unique, fun k hfree => ?_, fun k i => ?_⟩
  · exact (hrefines.behind.free hfree).trans (hexplains k).state
  · have hinside := congrFun (congrArg Threads.Sync.inside hrefines.system) i
    have horder := (hexplains k).order i
    exact hinside ▸ horder

/-- The sink of `Logger.console`. -/
def consoleSink : Sink := Sink.new "%m".toList [] true .ealDebug

lemma console_map : Logger.console.loggerSinkMap .ealConsole = some (.console consoleSink) := rfl
lemma console_map_syslog : Logger.console.loggerSinkMap .ealSyslog = none := rfl
lemma console_map_file : Logger.console.loggerSinkMap .ealFileSimple = none := rfl

lemma consoleSink_enabled : consoleSink.enabled = true := rfl
lemma consoleSink_minLevel : consoleSink.minLevel = .ealDebug := rfl
lemma consoleSink_patterns : consoleSink.vecConvPatterns = [⟨"%m".toList, .msg⟩] := by decide

/-- The level of the file sink is set while a message is on its way through the console sink. -/
def underway : List (Statements.Label (Threads.Label Bool) Bool) :=
  let c := LogCall.plain 0 [] "a".toList .ealInfo
  [.act (.call true c), .act (.hand true .ealConsole c Device.willing), .micro true,
    .act (.sinkCall false (.setMinLvl .ealFileSimple .ealError) Device.willing), .micro true,
    .micro false, .release false]

lemma legal_underway : (Statements.lts (sync Env.bare) Env.bare).Legal
    (Statements.start (Threads.start Logger.console)) underway := by
  simp [underway, Statements.lts, Statements.enabled, Statements.next, sync, Statements.start,
    Statements.moved, Statements.State.put, Statements.State.sinks, Statements.State.rebuilding,
    Statements.stillRebuilds, Threads.start, Threads.lts, Threads.enabled, Threads.next,
    Threads.advance, sinkKeys, Op.onSinks, Op.rebuilds, Sharded.next, Sharded.enabled,
    Sharded.Phase.after, Turns.machine, Turns.Op.turn, Turn.key, Turn.enter, Turns.step,
    Turns.look, Turns.modify, Logger.atSink, AnySink.base, console_map, console_map_file,
    consoleSink_enabled]

theorem serial_of_legal_underway :
    Serial Env.bare Logger.console (underway.flatMap Statements.atomic)
      ((Statements.lts (sync Env.bare) Env.bare).run
        (Statements.start (Threads.start Logger.console)) underway) :=
  serial_of_legal Env.bare Disk.empty
    [(.initConsoleSink true .ealDebug "%m".toList [], Device.willing)] underway legal_underway

/-! ### With a background thread -/

/-- Whose statement it is. -/
def thread : QueueLock.Label (AsyncQueue.Who ι) → AsyncQueue.Who ι
  | .call w _ => w
  | .lock w => w
  | .append w => w
  | .notifyOne w _ _ => w
  | .test w => w
  | .wait w => w
  | .spurious w => w
  | .front w _ => w
  | .remove w => w
  | .isEmpty w _ => w
  | .ret w _ => w

/-- Who makes a step outside the queue; the clients have to be back before the `Logger` is
destroyed. -/
def actor : Label ι → AsyncQueue.Who ι → Prop
  | .call i _, w => w = .client i
  | .sinkCall i _ _, w => w = .client i
  | .destroy, w => w ≠ .worker
  | .setStop, w => w = .dtor
  | .join, w => w = .dtor
  | _, w => w = .worker

/-- An asynchronous `Logger`, with its queue statement by statement. -/
def async (env : Env) : System (AsyncQueue.State ι) (AsyncQueue.Step ι) (AsyncQueue.Who ι) where
  lts := AsyncQueue.lts env
  logger s := s.rest.logger
  withLogger s L := { s with rest := { s.rest with logger := L } }
  turn
    | .act (.hand k m dev) => some (.worker, .prepareLogMessage k m dev)
    | .act (.sinkCall i o dev) => (Turns.Op.turn dev o).map (Prod.mk (.client i))
    | _ => none
  idle
    | .act a, w => actor a w
    | .queue l, w => w = thread l
  looks
    | .act (.hand j _ _), k => k = j
    | .act (.skip j), k => k = j
    | .act (.sinkCall _ o dev), k => ∃ t, Turns.Op.turn dev o = some t ∧ t.key = k
    | _, _ => False
  iterates s := s.rest.worker.inHand ≠ []

lemma async_enabled_with {a : Label ι} {r : Async ι} (L : Logger) (ha : Async.enabled a r)
    (hlook : ∀ k, (async env).looks (.act a) k → present r.logger k = present L k) :
    Async.enabled a { r with logger := L } := by
  cases a with
  | hand k m dev => exact ⟨ha.1, (hlook k rfl).symm.trans ha.2⟩
  | skip k =>
    have hsame : present r.logger k = present L k := hlook k rfl
    have habsent : L.loggerSinkMap k = none := by simpa [present, ha.2] using hsame
    exact ⟨ha.1, habsent⟩
  | sinkCall i o dev =>
    obtain ⟨hnone, hrun, ho, halone⟩ := ha
    obtain ⟨t, ht⟩ := turn_isSome ho dev
    refine ⟨hnone, hrun, ho, fun hr => halone ?_⟩
    rw [rebuilds_turn _ ht] at hr ⊢
    exact (rebuilds_congr (hlook t.key ⟨t, ht, rfl⟩)).trans hr
  | _ => exact ha

omit [DecidableEq ι] in
lemma may_with {r : Async ι} {w : AsyncQueue.Who ι} {c : QueueLock.Call} (L : Logger)
    (h : AsyncQueue.May r w c) : AsyncQueue.May { r with logger := L } w c := by
  cases w <;> cases c <;> exact h

lemma settle_logger (l : QueueLock.Label (AsyncQueue.Who ι)) (r : Async ι) :
    (AsyncQueue.settle l r).logger = r.logger := by
  unfold AsyncQueue.settle
  split <;> rfl

lemma settle_with (l : QueueLock.Label (AsyncQueue.Who ι)) (r : Async ι) (L : Logger) :
    AsyncQueue.settle l { r with logger := L } =
      { AsyncQueue.settle l r with logger := L } := by
  unfold AsyncQueue.settle
  split <;> rfl

lemma async_lawful (env : Env) : (async (ι := ι) env).Lawful env where
  logger_with _ _ := rfl
  with_with _ _ _ := rfl
  with_logger _ := rfl
  iterates_with _ _ := Iff.rfl
  next_logger x s hx := by
    cases x with
    | act a =>
      cases a with
      | sinkCall i o dev =>
        obtain ⟨t, ht⟩ := turn_isSome hx.2.2.2.1 dev
        simp only [async, ht, Option.map_some, exec_turn s.rest.logger ht]
        rfl
      | _ => rfl
    | queue l => exact settle_logger l s.rest
  next_with x s L L' := by
    cases x with
    | act a => cases a <;> rfl
    | queue l =>
      have hsettle := settle_with l s.rest L
      simp only [async, AsyncQueue.lts, AsyncQueue.next, hsettle]
  enabled_with x s L hx hlook := by
    cases x with
    | act a => exact ⟨hx.1, async_enabled_with L hx.2 hlook⟩
    | queue l =>
      cases l with
      | call w c => exact ⟨hx.1, may_with L hx.2⟩
      | _ => exact hx
  looks_for x s k hx hk := by
    cases x with
    | act a =>
      cases a with
      | hand j m dev => exact .inl ⟨.worker, _, rfl, hk.symm⟩
      | skip j =>
        obtain ⟨-, ⟨m, rest, hw⟩, -⟩ := hx
        exact .inr (by simp [async, hw, Worker.inHand])
      | sinkCall i o dev =>
        obtain ⟨t, ht, hkey⟩ := hk
        exact .inl ⟨.client i, t, by simp [async, ht], hkey⟩
      | _ => exact absurd hk id
    | queue l => exact absurd hk id
  turn_idle x w t ht := by
    cases x with
    | act a =>
      cases a with
      | hand k m dev =>
        cases ht
        rfl
      | sinkCall i o dev =>
        obtain ⟨u, hu, heq⟩ := Option.map_eq_some_iff.mp ht
        cases heq
        rfl
      | _ => cases ht
    | queue l => cases ht
  rebuilds_alone x s w t hx ht hr := by
    cases x with
    | act a =>
      cases a with
      | hand k m dev =>
        cases ht
        simp [Statements.rebuilds] at hr
      | sinkCall i o dev =>
        obtain ⟨u, hu, heq⟩ := Option.map_eq_some_iff.mp ht
        cases heq
        obtain ⟨-, -, -, -, halone⟩ := hx
        exact not_not.mpr (halone ((rebuilds_turn s.rest.logger hu).trans hr))
      | _ => cases ht
    | queue l => cases ht

/-- The run of `Async` that a run is. -/
def abstracted (xs : List (Statements.Label (AsyncQueue.Step ι) (AsyncQueue.Who ι))) :
    List (Label ι) :=
  AsyncQueue.acts ((xs.flatMap Statements.atomic).flatMap AsyncQueue.atomic)

/-- The threads are where they are in a state of `Async`, and the queue and the sinks whose mutexes
are free are the ones there. -/
structure Abstracts (s : Statements.State (AsyncQueue.State ι) (AsyncQueue.Who ι)) (r : Async ι) :
    Prop where
  threads : s.system.rest = { r with logger := s.system.rest.logger, queue := [] }
  queue : s.system.logMsgQueue.mtx = none → s.system.logMsgQueue.msgQueue = r.queue.map some
  sinks : ∀ k, s.owner k = none → slice k s.system.rest.logger = slice k r.logger
  exclusive : ∀ v w k, (s.phase v).holds = some k → (s.phase w).holds = some k → v = w

lemma abstracts_of_refines {s : Statements.State (AsyncQueue.State ι) (AsyncQueue.Who ι)}
    {t : AsyncQueue.State ι} {r : Waiting ι} (h : Statements.Refines (async env) env s t)
    (ht : AsyncQueue.Explains t r) : Abstracts s r.async := by
  have hsystem : ⟨{ s.system.rest with logger := t.rest.logger }, s.system.logMsgQueue⟩ = t :=
    h.system
  have hrest : { s.system.rest with logger := t.rest.logger } = { r.async with queue := [] } :=
    (congrArg AsyncQueue.State.rest hsystem).trans ht.rest
  have hqueue : s.system.logMsgQueue = t.logMsgQueue := by rw [← hsystem]
  obtain ⟨q, hrefines, hq⟩ := ht.queue
  refine ⟨?_, fun hfree => ?_, fun k hfree => ?_, fun v w k => h.behind.owned.unique⟩
  · exact congrArg (fun r => { r with logger := s.system.rest.logger }) hrest
  · rw [hqueue] at hfree ⊢
    exact (hrefines.free hfree).trans hq
  · have hsame : slice k s.system.rest.logger = slice k t.rest.logger := h.behind.free hfree
    rw [hsame, ht.rest]

lemma refines_of_legal (hL : Good L)
    {xs : List (Statements.Label (AsyncQueue.Step ι) (AsyncQueue.Who ι))}
    (h : (Statements.lts (async env) env).Legal (Statements.start (AsyncQueue.start L)) xs) :
    (AsyncQueue.lts env).Legal (AsyncQueue.start L) (xs.flatMap Statements.atomic) ∧
      Statements.Refines (async env) env
        ((Statements.lts (async env) env).run (Statements.start (AsyncQueue.start L)) xs)
        ((AsyncQueue.lts env).run (AsyncQueue.start L) (xs.flatMap Statements.atomic)) :=
  Statements.refines_run (async_lawful env) (t := AsyncQueue.start L) hL h

lemma abstracted_of_legal (hL : Good L)
    {xs : List (Statements.Label (AsyncQueue.Step ι) (AsyncQueue.Who ι))}
    (h : (Statements.lts (async env) env).Legal (Statements.start (AsyncQueue.start L)) xs) :
    (Async.lts env).Legal (Async.start L) (abstracted xs) ∧
      Abstracts ((Statements.lts (async env) env).run (Statements.start (AsyncQueue.start L)) xs)
        ((Async.lts env).run (Async.start L) (abstracted xs)) := by
  obtain ⟨hlegal, hrefines⟩ := refines_of_legal hL h
  obtain ⟨hwaiting, hexplains⟩ := AsyncQueue.explained_of_legal hlegal
  obtain ⟨hasync, hsame⟩ := AsyncQueue.async_of_waiting hwaiting
  exact ⟨hasync, hsame ▸ abstracts_of_refines hrefines hexplains⟩

/-- A message goes through the console sink while the level of the file sink is set. -/
def throughConsole : List (Statements.Label (AsyncQueue.Step Unit) (AsyncQueue.Who Unit)) :=
  let c : LogCall := .plain 0 [] "a".toList .ealInfo
  let m : QueueLock.Ptr := some c.message
  let before : List (AsyncQueue.Step Unit) :=
    [.act .test, .queue (.call .worker .pop), .queue (.lock .worker), .queue (.test .worker),
      .queue (.wait .worker), .act (.call () c), .queue (.call (.client ()) (.push m)),
      .queue (.lock (.client ())), .queue (.append (.client ())),
      .queue (.notifyOne (.client ()) m (some .worker)), .queue (.ret (.client ()) (.pushed m)),
      .queue (.lock .worker), .queue (.test .worker), .queue (.front .worker m),
      .queue (.remove .worker), .queue (.ret .worker (.popped m)),
      .act (.hand .ealConsole c.message Device.willing)]
  let after : List (AsyncQueue.Step Unit) :=
    [.act (.skip .ealSyslog), .act (.skip .ealFileSimple), .act (.finish c.message), .act .test,
      .queue (.call .worker .pop), .queue (.lock .worker), .queue (.test .worker),
      .queue (.wait .worker)]
  before.map .act ++ [.micro .worker,
    .act (.act (.sinkCall () (.setMinLvl .ealFileSimple .ealError) Device.willing)), .micro .worker,
    .micro (.client ()), .micro .worker, .release (.client ()), .micro .worker, .micro .worker,
    .micro .worker, .micro .worker, .release .worker] ++ after.map .act

lemma legal_throughConsole : (Statements.lts (async Env.bare) Env.bare).Legal
    (Statements.start (AsyncQueue.start Logger.console)) throughConsole := by
  simp [throughConsole, Statements.lts, Statements.enabled, Statements.next, async, thread, actor,
    Statements.start, Statements.moved, Statements.State.put, Statements.State.sinks,
    Statements.State.rebuilding, Statements.stillRebuilds, AsyncQueue.start, AsyncQueue.lts,
    AsyncQueue.enabled, AsyncQueue.next, AsyncQueue.settle, AsyncQueue.Free, AsyncQueue.May,
    QueueLock.enabled, QueueLock.next, QueueLock.start, QueueLock.State.setPoint,
    QueueLock.Point.enter, QueueLock.Point.locked, Async.enabled, Async.next, Async.start,
    Worker.advance, Worker.inHand, sinkKeys, Op.onSinks, Op.rebuilds, Sharded.next,
    Sharded.enabled, Sharded.Phase.after, Turns.machine, Turns.Op.turn, Turn.key, Turn.enter,
    Turns.step, Turns.look, Turns.modify, Turns.written, Slice.wrote, Logger.atSink, Logger.put,
    AnySink.base, AnySink.writeMessage, LogCall.plain, LogCall.message, LogMessage.build,
    LogLevel.value, console_map, console_map_syslog, console_map_file, consoleSink_enabled,
    consoleSink_minLevel, consoleSink_patterns]

/-- What happens only when a client calls, or for no reason. -/
def External : Statements.Label (AsyncQueue.Step ι) (AsyncQueue.Who ι) → Prop
  | .act x => AsyncQueue.External x
  | _ => False

def Still (env : Env) (s : Statements.State (AsyncQueue.State ι) (AsyncQueue.Who ι)) : Prop :=
  ∀ x, Statements.enabled (async env) env x s → External x

/-- No thread waits for another one: no mutex is held, each sink is the one in the state of
`Async`, and so are the messages that have been delivered. -/
structure Quiescent (as : List (Label ι)) (r : Async ι)
    (s : Statements.State (AsyncQueue.State ι) (AsyncQueue.Who ι)) : Prop where
  phases : ∀ w, s.phase w = .outside
  mutexes : ∀ k, s.owner k = none
  sinks : ∀ k, slice k s.system.rest.logger = slice k r.logger
  threads : AsyncQueue.AtRest as s.system

lemma atRest_of_refines {s : Statements.State (AsyncQueue.State ι) (AsyncQueue.Who ι)}
    {t : AsyncQueue.State ι} (h : Statements.Refines (async env) env s t) {as : List (Label ι)}
    (ht : AsyncQueue.AtRest as t) : AsyncQueue.AtRest as s.system := by
  rw [← h.system] at ht
  exact ⟨ht.clients, ht.mutex, ht.threads⟩

lemma outside_of_still {s : Statements.State (AsyncQueue.State ι) (AsyncQueue.Who ι)}
    (hstill : Still env s) (w : AsyncQueue.Who ι) : s.phase w = .outside := by
  cases hw : s.phase w with
  | outside => rfl
  | inside k c => exact absurd (hstill (.micro w) ⟨k, c, hw⟩) id
  | leaving k => exact absurd (hstill (.release w) ⟨k, hw⟩) id

/-- **No deadlock.** When nothing more happens by itself, no mutex is held, and the messages of
all calls have been through the sinks, or the destructor has returned. -/
theorem quiescent_of_legal (env : Env) (d : Disk) (setup : List (Op × Device))
    (xs : List (Statements.Label (AsyncQueue.Step ι) (AsyncQueue.Who ι)))
    (h : (Statements.lts (async env) env).Legal
      (Statements.start (AsyncQueue.start ((Logger.new d).run setup))) xs)
    (hstill : Still env ((Statements.lts (async env) env).run
      (Statements.start (AsyncQueue.start ((Logger.new d).run setup))) xs)) :
    Quiescent (abstracted xs)
      ((Async.lts env).run (Async.start ((Logger.new d).run setup)) (abstracted xs))
      ((Statements.lts (async env) env).run
        (Statements.start (AsyncQueue.start ((Logger.new d).run setup))) xs) := by
  have hL : Good ((Logger.new d).run setup) := run_good (FileView.new_good d) setup
  obtain ⟨-, habstracts⟩ := abstracted_of_legal hL h
  obtain ⟨hlegal, hrefines⟩ := refines_of_legal hL h
  have hout := outside_of_still hstill
  have hfree := Statements.free_of_outside hrefines hout
  have hthere : AsyncQueue.Still
      ((AsyncQueue.lts env).run (AsyncQueue.start ((Logger.new d).run setup))
        (xs.flatMap Statements.atomic)) := fun x hx =>
    hstill (.act x) (Statements.enabled_of_outside (async_lawful env) hrefines hout hx)
  exact ⟨hout, hfree, fun k => habstracts.sinks k (hfree k),
    atRest_of_refines hrefines (AsyncQueue.quiescent_of_still hlegal hthere)⟩

lemma still_throughConsole : Still Env.bare ((Statements.lts (async Env.bare) Env.bare).run
    (Statements.start (AsyncQueue.start Logger.console)) throughConsole) := by
  have hphase : ∀ w, ((Statements.lts (async Env.bare) Env.bare).run
      (Statements.start (AsyncQueue.start Logger.console)) throughConsole).phase w = .outside := by
    intro w
    cases w with
    | client i =>
      obtain rfl := Subsingleton.elim i ()
      rfl
    | worker => rfl
    | dtor => rfl
  have hpending : ∀ i, ((Statements.lts (async Env.bare) Env.bare).run
      (Statements.start (AsyncQueue.start Logger.console))
        throughConsole).system.rest.pending i = none := by
    intro i
    obtain rfl := Subsingleton.elim i ()
    rfl
  have hpoint : ∀ w, w ≠ .worker → ((Statements.lts (async Env.bare) Env.bare).run
      (Statements.start (AsyncQueue.start Logger.console))
        throughConsole).system.logMsgQueue.point w = .outside := by
    intro w hw
    cases w with
    | client i =>
      obtain rfl := Subsingleton.elim i ()
      rfl
    | worker => exact absurd rfl hw
    | dtor => rfl
  intro x hx
  cases x with
  | act x => exact AsyncQueue.still_of_asleep rfl hpending rfl hpoint x hx.1
  | micro w =>
    obtain ⟨k, c, hw⟩ := hx
    cases (hphase w).symm.trans hw
  | release w =>
    obtain ⟨k, hw⟩ := hx
    cases (hphase w).symm.trans hw

theorem quiescent_of_legal_throughConsole :
    Quiescent (abstracted throughConsole)
      ((Async.lts Env.bare).run (Async.start Logger.console) (abstracted throughConsole))
      ((Statements.lts (async Env.bare) Env.bare).run
        (Statements.start (AsyncQueue.start Logger.console)) throughConsole) :=
  quiescent_of_legal Env.bare Disk.empty
    [(.initConsoleSink true .ealDebug "%m".toList [], Device.willing)] throughConsole
    legal_throughConsole still_throughConsole

end Ealogger.Interleaving
