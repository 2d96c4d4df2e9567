import Ealogger.Lib.Reorder
import Ealogger.LoggerView
import Ealogger.Shutdown

/-!
Asynchronous logging against synchronous logging, for one client and one sink.

A message is rendered when the background thread hands it to the sink, so a setter called
while it was still in the queue applies to it. The strings the sink is given are those of a
synchronous `Logger` whose client made the same calls, except that some of the setters came
earlier: each has moved forward past the messages that were then waiting.
-/

namespace Ealogger.AsyncRefines

open Delivery Shutdown LoggerView

variable {env : Env} {L : Logger} {k : LoggerSink}

/-- What the client does, call by call. -/
def issued (env : Env) (as : List (Label Unit)) : List Op :=
  as.filterMap fun
    | .call _ c => some (c.op env)
    | .sinkCall _ o _ => some o
    | _ => none

/-- Besides logging, the client only calls setters of the sink. -/
def OnlySets (k : LoggerSink) (as : List (Label Unit)) : Prop :=
  ∀ i o dev, .sinkCall i o dev ∈ as → (setter k o).isSome = true

/-! ### The messages on their way to the sink -/

def toCome (k : LoggerSink) : Worker → List LogMessage
  | .dispatching m rest => if k ∈ rest then [m] else []
  | _ => []

def waiting (k : LoggerSink) (s : Async Unit) : List LogMessage :=
  toCome k s.worker ++ s.queue ++ (s.pending ()).toList

/-- The sink is where a synchronous `Logger` is after the operations `eff`; the messages still
on their way are those of the calls `ws` and, at the end, the one of the destructor. -/
structure Sim (env : Env) (L : Logger) (k : LoggerSink) (as : List (Label Unit)) (s : Async Unit)
    (eff : List Op) (ws : List LogCall) (exs : List LogMessage) : Prop where
  order : Reorder.Advanced Op.onSinks (issued env as) (eff ++ ws.map (LogCall.op env))
  waits : waiting k s = ws.map LogCall.message ++ exs
  silent : ∀ m ∈ exs, m.severity = .ealInternal
  running : s.dtor = .running → exs = []
  view_eq : view k s.logger = (view k L).run k eff
  drained : sawEmpty s.dtor = true → ws.length ≤ (toCome k s.worker).length

lemma issued_snoc (as : List (Label Unit)) (a : Label Unit) :
    issued env (as ++ [a]) = issued env as ++ issued env [a] := by
  simp [issued]

section Step

variable {as : List (Label Unit)} {s s' : Async Unit} {a : Label Unit} {eff : List Op}
  {ws : List LogCall} {exs : List LogMessage}

/-- A step that neither calls the sink nor changes what is on its way. -/
lemma Sim.frame (h : Sim env L k as s eff ws exs) (hissue : issued env [a] = [])
    (hwaits : waiting k s' = waiting k s) (hview : view k s'.logger = view k s.logger)
    (hrunning : s'.dtor = .running → s.dtor = .running)
    (hdrained : sawEmpty s'.dtor = true → ws.length ≤ (toCome k s'.worker).length) :
    Sim env L k (as ++ [a]) s' eff ws exs := by
  refine ⟨?_, hwaits.trans h.waits, h.silent, fun hr => h.running (hrunning hr),
    hview.trans h.view_eq, hdrained⟩
  rw [issued_snoc, hissue, List.append_nil]
  exact h.order

/-- A step of the background thread that keeps the message it has in hand. -/
lemma Sim.frame_worker (h : Sim env L k as s eff ws exs) (hissue : issued env [a] = []) {w : Worker}
    (hcome : toCome k w = toCome k s.worker) :
    Sim env L k (as ++ [a]) { s with worker := w } eff ws exs := by
  refine h.frame hissue ?_ rfl id fun hs => ?_
  · rw [waiting, waiting, hcome]
  · exact (h.drained hs).trans (Nat.le_of_eq (congrArg List.length hcome).symm)

lemma sim_call (h : Sim env L k as s eff ws exs) {c : LogCall}
    (ha : Async.enabled (.call () c) s) :
    Sim env L k (as ++ [.call () c]) (Async.next env (.call () c) s) eff (ws ++ [c]) exs := by
  obtain ⟨hpending, hrun⟩ := ha
  have hexs : exs = [] := h.running hrun
  refine ⟨?_, ?_, h.silent, h.running, h.view_eq, fun hs => ?_⟩
  · have horder := h.order.snoc (c.op env)
    rw [issued_snoc, List.map_append, ← List.append_assoc]
    exact horder
  · have hwaits := h.waits
    simp only [waiting, hpending, hexs, Option.toList_none, List.append_nil] at hwaits
    simp [waiting, Async.next, hexs, hwaits]
  · simp [Async.next, hrun, sawEmpty] at hs

lemma sim_push (h : Sim env L k as s eff ws exs) {m : LogMessage}
    (ha : Async.enabled (.push () m) s) :
    Sim env L k (as ++ [.push () m]) (Async.next env (.push () m) s) eff ws exs := by
  have hpending : s.pending () = some m := ha
  refine h.frame rfl ?_ rfl id h.drained
  simp [waiting, Async.next, hpending]

/-- A setter overtakes the messages that are on their way. -/
lemma sim_sinkCall (h : Sim env L k as s eff ws exs) {o : Op} {dev : Device}
    (hset : (setter k o).isSome = true) (ha : Async.enabled (.sinkCall () o dev) s) :
    Sim env L k (as ++ [.sinkCall () o dev]) (Async.next env (.sinkCall () o dev) s)
      (eff ++ [o]) ws exs := by
  refine ⟨?_, h.waits, h.silent, h.running, ?_, h.drained⟩
  · rw [issued_snoc, List.append_assoc]
    refine h.order.insert ha.2.2.1 fun z hz => ?_
    obtain ⟨c, -, rfl⟩ := List.mem_map.mp hz
    rfl
  · have hexec := view_exec (L := s.logger) (k := k) (Or.inr (Or.inl hset)) dev
    simp only [Async.next, hexec, h.view_eq]
    simp [View.run]

/-- The message in hand takes effect at the sink. -/
lemma sim_hand_self (h : Sim env L k as s eff ws exs) (hkeys : KeysOk s.worker) {m : LogMessage}
    {dev : Device} (ha : Async.enabled (.hand k m dev) s) :
    ∃ eff' ws' exs', Sim env L k (as ++ [.hand k m dev]) (Async.next env (.hand k m dev) s)
      eff' ws' exs' := by
  obtain ⟨⟨rest, hw⟩, -⟩ := ha
  have hrest : k ∉ rest := (List.nodup_cons.mp (hkeys m _ hw)).1
  have hview : view k (Async.next env (.hand k m dev) s).logger = (view k s.logger).log env m :=
    (view_dispatch env dev m k).trans (if_pos rfl)
  have hcome : toCome k (Async.next env (.hand k m dev) s).worker = [] := by
    simp [Async.next, hw, Worker.advance, toCome, hrest]
  have hissue : issued env (as ++ [.hand k m dev]) = issued env as := by
    rw [issued_snoc]
    exact List.append_nil _
  have hwaits : m :: waiting k (Async.next env (.hand k m dev) s) =
      ws.map LogCall.message ++ exs := by
    rw [← h.waits, waiting, waiting, hcome]
    simp [Async.next, hw, toCome]
  cases ws with
  | nil =>
    -- only the message of the destructor is left, and it is not printed
    rw [List.map_nil, List.nil_append] at hwaits
    subst hwaits
    refine ⟨eff, [], _, hissue ▸ h.order, rfl,
      fun m' hm' => h.silent m' (List.mem_cons_of_mem m hm'), fun hr => ?_, ?_,
      fun _ => Nat.zero_le _⟩
    · exact absurd (h.running hr) (by simp)
    · rw [hview, View.log_silent env (h.silent m (by simp)), h.view_eq]
  | cons c ws =>
    obtain ⟨rfl, hwaits⟩ := List.cons.inj hwaits
    refine ⟨eff ++ [c.op env], ws, exs, ?_, hwaits, h.silent, h.running, ?_, fun hs => ?_⟩
    · rw [hissue, List.append_assoc]
      exact h.order
    · rw [hview, h.view_eq]
      simp [View.run, View.exec, LogCall.op, LogCall.message]
    · have hone := h.drained hs
      rw [hw, toCome, if_pos List.mem_cons_self] at hone
      exact Nat.le_of_succ_le_succ (hone.trans (Nat.succ_le_succ (Nat.zero_le _)))

/-- Another sink's turn. -/
lemma sim_hand_other (h : Sim env L k as s eff ws exs) {j : LoggerSink} (hj : j ≠ k)
    {m : LogMessage} {dev : Device} (ha : Async.enabled (.hand j m dev) s) :
    Sim env L k (as ++ [.hand j m dev]) (Async.next env (.hand j m dev) s) eff ws exs := by
  obtain ⟨⟨rest, hw⟩, -⟩ := ha
  have hcome : toCome k (Async.next env (.hand j m dev) s).worker = toCome k s.worker := by
    simp [Async.next, hw, Worker.advance, toCome, Ne.symm hj]
  refine h.frame rfl ?_ ((view_dispatch env dev m j).trans (if_neg hj)) id fun hs => ?_
  · rw [waiting, waiting, hcome]
    rfl
  · rw [hcome]
    exact h.drained hs

lemma sim_skip (h : Sim env L k as s eff ws exs)
    (hpresent : (s.logger.loggerSinkMap k).isSome = true) {j : LoggerSink}
    (ha : Async.enabled (.skip j) s) :
    Sim env L k (as ++ [.skip j]) (Async.next env (.skip j) s) eff ws exs := by
  obtain ⟨⟨m, rest, hw⟩, habsent⟩ := ha
  have hj : k ≠ j := by
    rintro rfl
    simp [habsent] at hpresent
  have hcome : toCome k (Async.next env (.skip j) s).worker = toCome k s.worker := by
    simp [Async.next, hw, Worker.advance, toCome, hj]
  refine h.frame rfl ?_ rfl id fun hs => ?_
  · rw [waiting, waiting, hcome]
    rfl
  · rw [hcome]
    exact h.drained hs

lemma sim_poll (h : Sim env L k as s eff ws exs) (hquiet : s.pending () = none)
    (ha : Async.enabled .poll s) :
    Sim env L k (as ++ [.poll]) (Async.next env .poll s) eff ws exs := by
  obtain ⟨i, hpoll⟩ := ha
  refine h.frame rfl rfl rfl (fun hr => ?_) fun hs => ?_
  · rcases poll_cases env hpoll with ⟨hd, -⟩ | hd | hd <;> simp [hd] at hr
  · rcases poll_cases env hpoll with ⟨-, hq⟩ | hd | hd
    · -- with an empty queue at most the message in hand is on its way
      change ws.length ≤ (toCome k s.worker).length
      have hwaits := congrArg List.length h.waits
      simp only [waiting, hq, hquiet, Option.toList_none, List.append_nil, List.length_append,
        List.length_map] at hwaits
      omega
    · simp [hd, sawEmpty] at hs
    · simp [hd, sawEmpty] at hs

lemma sim_pushExit (h : Sim env L k as s eff ws exs) (hquiet : s.pending () = none)
    {m : LogMessage} (ha : Async.enabled (.pushExit m) s) :
    Sim env L k (as ++ [.pushExit m]) (Async.next env (.pushExit m) s) eff ws (exs ++ [m]) := by
  obtain ⟨⟨b, hb⟩, now, rfl⟩ := ha
  refine ⟨?_, ?_, fun m' hm' => ?_, fun hr => ?_, h.view_eq, fun hs => h.drained ?_⟩
  · rw [issued_snoc]
    simpa [issued] using h.order
  · have hwaits := h.waits
    simp only [waiting, hquiet, Option.toList_none, List.append_nil] at hwaits
    rw [← List.append_assoc, ← hwaits]
    simp [waiting, Async.next, hquiet]
  · rcases List.mem_append.mp hm' with hm' | hm'
    · exact h.silent m' hm'
    · rw [List.mem_singleton.mp hm']
      rfl
  · simp [Async.next, hb, Dtor.advance] at hr
  · simpa [Async.next, hb, Dtor.advance, sawEmpty] using hs

/-- **One step.** -/
theorem sim_step (h : Sim env L k as s eff ws exs) (hk : (view k L).sink.isSome = true)
    (hacc : Accounted as s) (hclosing : Closing as s) (ha : Async.enabled a s)
    (hset : ∀ i o dev, a = .sinkCall i o dev → (setter k o).isSome = true) :
    ∃ eff' ws' exs', Sim env L k (as ++ [a]) (Async.next env a s) eff' ws' exs' := by
  have hpresent : (s.logger.loggerSinkMap k).isSome = true := by
    have hsink := View.run_isSome (k := k) _ eff hk
    rw [← h.view_eq] at hsink
    simpa [view] using hsink
  cases a with
  | call i c => exact ⟨_, _, _, sim_call h ha⟩
  | push i m => exact ⟨_, _, _, sim_push h ha⟩
  | sinkCall i o dev => exact ⟨_, _, _, sim_sinkCall h (hset i o dev rfl) ha⟩
  | queueEmpty i b => exact ⟨_, _, _, h.frame rfl rfl rfl id h.drained⟩
  | test =>
    have hw : s.worker = .testing := ha
    refine ⟨_, _, _, h.frame_worker rfl ?_⟩
    cases s.stop <;> simp [hw, toCome]
  | pop m =>
    obtain ⟨hw, hhead⟩ := ha
    obtain ⟨q, hq⟩ := List.head?_eq_some_iff.mp hhead
    refine ⟨_, _, _, h.frame rfl ?_ rfl id fun hs => ?_⟩
    · simp [waiting, Async.next, hw, hq, toCome]
    · have hnone := h.drained hs
      rw [hw] at hnone
      exact hnone.trans (Nat.zero_le _)
  | hand j m dev =>
    by_cases hj : j = k
    · subst hj
      exact sim_hand_self h hacc.keys ha
    · exact ⟨_, _, _, sim_hand_other h hj ha⟩
  | skip j => exact ⟨_, _, _, sim_skip h hpresent ha⟩
  | finish m =>
    have hw : s.worker = .dispatching m [] := ha
    refine ⟨_, _, _, h.frame_worker rfl ?_⟩
    simp [hw, toCome]
  | destroy =>
    refine ⟨_, _, _, h.frame rfl rfl rfl (fun _ => ha.1) fun hs => ?_⟩
    simp [Async.next, ha.1, Dtor.advance, sawEmpty] at hs
  | poll =>
    obtain ⟨i, hpoll⟩ := ha
    exact ⟨_, _, _, sim_poll h (hclosing.quiet.resolve_left (by simp [hpoll]) ()) ⟨i, hpoll⟩⟩
  | setStop =>
    obtain ⟨b, hb⟩ := ha
    refine ⟨_, _, _, h.frame rfl rfl rfl (fun hr => ?_) fun hs => h.drained ?_⟩
    · simp [Async.next, hb, Dtor.advance] at hr
    · simpa [Async.next, hb, Dtor.advance, sawEmpty] using hs
  | pushExit m =>
    obtain ⟨b, hb⟩ := ha.1
    exact ⟨_, _, _, sim_pushExit h (hclosing.quiet.resolve_left (by simp [hb]) ()) ha⟩
  | join =>
    obtain ⟨⟨b, hb⟩, -⟩ := ha
    refine ⟨_, _, _, h.frame rfl rfl rfl (fun hr => ?_) fun hs => h.drained ?_⟩
    · simp [Async.next, hb, Dtor.advance] at hr
    · simpa [Async.next, hb, Dtor.advance, sawEmpty] using hs

end Step

/-! ### Runs -/

lemma sim_of_legal (hk : (view k L).sink.isSome = true) {as : List (Label Unit)}
    (h : (Async.lts env).Legal (Async.start L) as) (hset : OnlySets k as) :
    ∃ eff ws exs, Sim env L k as ((Async.lts env).run (Async.start L) as) eff ws exs := by
  let p : List (Label Unit) → Async Unit → Prop := fun as s =>
    OnlySets k as → ∃ eff ws exs, Sim env L k as s eff ws exs
  refine h.history (p := p) (fun _ => ⟨[], [], [], ?_⟩) (fun as a hlegal ih ha hset => ?_) hset
  · exact ⟨Reorder.Advanced.refl [], rfl, by simp, fun _ => rfl, rfl, fun _ => Nat.zero_le _⟩
  · obtain ⟨eff, ws, exs, hsim⟩ := ih fun i o dev ho => hset i o dev (by simp [ho])
    exact sim_step hsim hk (accounted_of_legal hlegal) (closing_of_legal hlegal) ha
      fun i o dev ho => hset i o dev (by simp [ho])

lemma acts_of_issued {as : List (Label Unit)} (hset : OnlySets k as) {o : Op}
    (ho : o ∈ issued env as) : Acts k o := by
  obtain ⟨a, ha, hao⟩ := List.mem_filterMap.mp ho
  cases a with
  | call i c => exact Or.inl ⟨env, c, (Option.some.inj hao).symm⟩
  | sinkCall i o' dev =>
    obtain rfl := Option.some.inj hao
    exact Or.inr (Or.inl (hset i o' dev ha))
  | _ => simp at hao

/-- **Setters are early, never late.** When `join` has returned after the queue was seen
empty, the sink has been handed the strings that a synchronous `Logger` hands it for the same
calls in some order, in which `write_log` and setter calls keep their places among themselves
and every setter still precedes the `write_log` calls it preceded. -/
theorem strings_of_joined (env : Env) (L : Logger) (k : LoggerSink) (as : List (Label Unit))
    (hk : (L.loggerSinkMap k).isSome = true) (hset : OnlySets k as)
    (h : (Async.lts env).Legal (Async.start L) as)
    (hjoined : ((Async.lts env).run (Async.start L) as).dtor = .joined true) :
    ∃ ops, Reorder.Advanced Op.onSinks (issued env as) ops ∧
      ∀ sync : List (Op × Device), sync.map Prod.fst = ops →
        stringsTo k ((Async.lts env).run (Async.start L) as).logger.trace =
          stringsTo k (L.run sync).trace := by
  obtain ⟨eff, ws, exs, hsim⟩ := sim_of_legal (by simpa [view] using hk) h hset
  have hexited := (closing_of_legal h).joined true hjoined
  have hnone : ws = [] := by
    have hdrained := hsim.drained (by rw [hjoined]; rfl)
    rw [hexited] at hdrained
    exact List.eq_nil_of_length_eq_zero (Nat.le_zero.mp hdrained)
  have horder := hsim.order
  rw [hnone, List.map_nil, List.append_nil] at horder
  refine ⟨eff, horder, fun sync hsync => ?_⟩
  have hrun := view_run (L := L) (k := k) sync fun o ho =>
    acts_of_issued hset (horder.mem (hsync ▸ ho))
  rw [hsync, ← hsim.view_eq] at hrun
  exact (congrArg View.strings hrun).symm

/-- The minimum level is raised while the message is on its way to the console. -/
def raisedInTime : List (Label Unit) :=
  let m := (LogCall.plain 0 [] "a".toList .ealInfo).message
  let bye := (exitCall 0).message
  [.call () (.plain 0 [] "a".toList .ealInfo), .push () m, .test, .pop m,
    .sinkCall () (.setMinLvl .ealConsole .ealError) Device.willing,
    .hand .ealConsole m Device.willing, .skip .ealSyslog, .skip .ealFileSimple, .finish m, .test,
    .destroy, .poll, .setStop, .pushExit bye, .pop bye, .hand .ealConsole bye Device.willing,
    .skip .ealSyslog, .skip .ealFileSimple, .finish bye, .test, .join]

theorem strings_of_joined_raised :
    ∃ ops, Reorder.Advanced Op.onSinks (issued Env.bare raisedInTime) ops ∧
      ∀ sync : List (Op × Device), sync.map Prod.fst = ops →
        stringsTo .ealConsole
            ((Async.lts Env.bare).run (Async.start Logger.console) raisedInTime).logger.trace =
          stringsTo .ealConsole (Logger.console.run sync).trace := by
  refine strings_of_joined Env.bare Logger.console .ealConsole raisedInTime rfl ?_ ?_ rfl
  · intro i o dev ho
    obtain ⟨rfl, rfl⟩ : o = .setMinLvl .ealConsole .ealError ∧ dev = Device.willing := by
      simpa [raisedInTime] using ho
    rfl
  · exact ⟨⟨rfl, rfl⟩, rfl, rfl, ⟨rfl, rfl⟩, ⟨rfl, rfl, rfl, fun hr => absurd hr (by decide)⟩,
      ⟨⟨_, rfl⟩, rfl⟩, ⟨⟨_, _, rfl⟩, rfl⟩, ⟨⟨_, _, rfl⟩, rfl⟩, rfl, rfl, ⟨rfl, fun _ => rfl⟩,
      ⟨0, rfl⟩, ⟨true, rfl⟩, ⟨⟨true, rfl⟩, 0, rfl⟩, ⟨rfl, rfl⟩, ⟨⟨_, rfl⟩, rfl⟩,
      ⟨⟨_, _, rfl⟩, rfl⟩, ⟨⟨_, _, rfl⟩, rfl⟩, rfl, rfl, ⟨⟨true, rfl⟩, rfl⟩, trivial⟩

end Ealogger.AsyncRefines
