import Ealogger.AsyncRefines
import Ealogger.Slice

/-!
Any number of clients, all operations, every sink.

What a sink of an asynchronous `Logger` has become and has been handed is what a synchronous
`Logger` makes of the calls of all clients in one order. In it the messages stand as they were
pushed, and the calls on the sinks as they were made; for each client the calls keep the order
of its program, except that those on the sinks may have moved forward past messages that were
still waiting.
-/

namespace Ealogger.Clients

open Delivery Shutdown Slice FileFailure
open AsyncRefines (toCome)

variable {ι : Type} [DecidableEq ι] {env : Env} {L : Logger} {k : LoggerSink}

/-- A call that has taken effect: whose it was, and what the device answered. -/
abbrev Effect (ι : Type) := ι × Op × Device

def byClient {α : Type} (i : ι) (xs : List (ι × α)) : List α :=
  (xs.filter fun x => x.1 = i).map Prod.snd

/-! ### What has been called -/

/-- What one client does, call by call. -/
def issued (env : Env) (i : ι) (as : List (Label ι)) : List Op :=
  as.filterMap fun
    | .call j c => if j = i then some (c.op env) else none
    | .sinkCall j o _ => if j = i then some o else none
    | _ => none

/-- The calls on the sinks. -/
def direct (as : List (Label ι)) : List (Effect ι) :=
  as.filterMap fun
    | .sinkCall i o dev => some (i, o, dev)
    | _ => none

/-- The messages of the clients as they were pushed. -/
def sent (as : List (Label ι)) : List (ι × LogMessage) :=
  as.filterMap fun
    | .push i m => some (i, m)
    | _ => none

def devices (as : List (Label ι)) : List Device :=
  as.filterMap fun
    | .sinkCall _ _ dev => some dev
    | .hand _ _ dev => some dev
    | _ => none

/-- The message that a call of `write_log` makes. -/
def messageOf : Op → Option LogMessage
  | .writeLog _ now stack msg lvl file lnumber func =>
    some (LogMessage.build now stack msg lvl file lnumber func)
  | _ => none

/-- The messages among the calls. -/
def messages (es : List (Effect ι)) : List (ι × LogMessage) :=
  es.filterMap fun e => (messageOf e.2.1).map fun m => (e.1, m)

/-- The calls on the sinks among the calls. -/
def onSinks (es : List (Effect ι)) : List (Effect ι) := es.filter fun e => e.2.1.onSinks

section Histories

variable {i j : ι}

omit [DecidableEq ι] in
lemma direct_snoc (as : List (Label ι)) (a : Label ι) :
    direct (as ++ [a]) = direct as ++ direct [a] := by
  simp [direct]

omit [DecidableEq ι] in
lemma sent_snoc (as : List (Label ι)) (a : Label ι) :
    sent (as ++ [a]) = sent as ++ sent [a] := by
  simp [sent]

lemma issued_snoc (as : List (Label ι)) (a : Label ι) :
    issued env i (as ++ [a]) = issued env i as ++ issued env i [a] := by
  simp [issued]

lemma byClient_append {α : Type} (xs ys : List (ι × α)) :
    byClient i (xs ++ ys) = byClient i xs ++ byClient i ys := by
  simp [byClient]

@[simp] lemma byClient_nil {α : Type} : byClient i ([] : List (ι × α)) = [] := rfl

lemma byClient_cons_self {α : Type} (x : α) (xs : List (ι × α)) :
    byClient i ((i, x) :: xs) = x :: byClient i xs := by
  simp [byClient]

lemma byClient_cons_ne {α : Type} (h : j ≠ i) (x : α) (xs : List (ι × α)) :
    byClient i ((j, x) :: xs) = byClient i xs := by
  simp [byClient, h]

omit [DecidableEq ι] in
lemma messages_append (es fs : List (Effect ι)) :
    messages (es ++ fs) = messages es ++ messages fs := by
  simp [messages]

/-- A call on a sink makes no message. -/
lemma messageOf_onSinks {o : Op} (h : o.onSinks = true) : messageOf o = none := by
  cases o <;> simp_all [messageOf, Op.onSinks]

end Histories

/-! ### The simulation -/

/-- Where the calls are: the ones that have taken effect at the sink, the messages on their way
to it, those not yet pushed, and the one of the destructor. -/
structure Trail (ι : Type) where
  eff : List (Effect ι)
  ws : List (ι × LogCall)
  pend : ι → Option LogCall
  exs : List LogMessage

/-- The calls of `write_log` that have not taken effect. -/
def Trail.rest (t : Trail ι) (i : ι) : List LogCall := byClient i t.ws ++ (t.pend i).toList

structure Sim (env : Env) (L : Logger) (k : LoggerSink) (as : List (Label ι)) (s : Async ι)
    (t : Trail ι) : Prop where
  order : ∀ i, Reorder.Advanced Op.onSinks (issued env i as)
    ((byClient i t.eff).map Prod.fst ++ (t.rest i).map (LogCall.op env))
  direct : onSinks t.eff = direct as
  queued : messages t.eff ++ t.ws.map (fun w => (w.1, w.2.message)) = sent as
  waits : toCome k s.worker ++ s.queue = t.ws.map (fun w => w.2.message) ++ t.exs
  pending : ∀ i, s.pending i = (t.pend i).map LogCall.message
  silent : ∀ m ∈ t.exs, m.severity = .ealInternal
  running : s.dtor = .running → t.exs = []
  good : Good s.logger
  slice_eq : slice k s.logger = slice k (L.run (t.eff.map Prod.snd))
  drained : sawEmpty s.dtor = true → t.ws.length ≤ (toCome k s.worker).length
  answered : ∀ e ∈ t.eff, e.2.2 = Device.willing ∨ e.2.2 ∈ devices as

omit [DecidableEq ι] in
lemma run_snoc (L : Logger) (eff : List (Effect ι)) (e : Effect ι) :
    L.run ((eff ++ [e]).map Prod.snd) = ((L.run (eff.map Prod.snd)).exec e.2).state := by
  simp [Logger.run]

omit [DecidableEq ι] in
lemma answered_snoc {as : List (Label ι)} {eff : List (Effect ι)} (a : Label ι)
    (h : ∀ e ∈ eff, e.2.2 = Device.willing ∨ e.2.2 ∈ devices as) :
    ∀ e ∈ eff, e.2.2 = Device.willing ∨ e.2.2 ∈ devices (as ++ [a]) := by
  intro e he
  rcases h e he with hd | hd
  · exact Or.inl hd
  · exact Or.inr (by simp only [devices, List.filterMap_append, List.mem_append]; exact Or.inl hd)

section Step

variable {as : List (Label ι)} {s s' : Async ι} {a : Label ι} {t : Trail ι}

/-- A step that neither calls the sink nor changes what is on its way. -/
lemma Sim.frame (h : Sim env L k as s t) (hissue : ∀ i, issued env i [a] = [])
    (hdirect : Clients.direct [a] = []) (hsent : sent [a] = [])
    (hwaits : toCome k s'.worker ++ s'.queue = toCome k s.worker ++ s.queue)
    (hpending : s'.pending = s.pending) (hgood : Good s'.logger)
    (hslice : slice k s'.logger = slice k s.logger)
    (hrunning : s'.dtor = .running → s.dtor = .running)
    (hdrained : sawEmpty s'.dtor = true → t.ws.length ≤ (toCome k s'.worker).length) :
    Sim env L k (as ++ [a]) s' t := by
  constructor
  · intro i
    rw [issued_snoc, hissue, List.append_nil]
    exact h.order i
  · rw [direct_snoc, hdirect, List.append_nil]
    exact h.direct
  · rw [sent_snoc, hsent, List.append_nil]
    exact h.queued
  · exact hwaits.trans h.waits
  · intro i
    rw [hpending]
    exact h.pending i
  · exact h.silent
  · exact fun hr => h.running (hrunning hr)
  · exact hgood
  · exact hslice.trans h.slice_eq
  · exact hdrained
  · exact answered_snoc a h.answered

/-- A step of the background thread that keeps the message it has in hand. -/
lemma Sim.frame_worker (h : Sim env L k as s t) (hissue : ∀ i, issued env i [a] = [])
    (hdirect : Clients.direct [a] = []) (hsent : sent [a] = []) {w : Worker}
    (hcome : toCome k w = toCome k s.worker) :
    Sim env L k (as ++ [a]) { s with worker := w } t := by
  refine h.frame hissue hdirect hsent ?_ rfl h.good rfl id fun hs => ?_
  · rw [hcome]
  · exact (h.drained hs).trans (Nat.le_of_eq (congrArg List.length hcome).symm)

/-- A message comes into being. -/
lemma sim_call (h : Sim env L k as s t) {i : ι} {c : LogCall}
    (ha : Async.enabled (.call i c) s) :
    Sim env L k (as ++ [.call i c]) (Async.next env (.call i c) s)
      { t with pend := Function.update t.pend i (some c) } := by
  obtain ⟨hpending, hrun⟩ := ha
  have hnone : t.pend i = none := by simpa [hpending] using h.pending i
  refine ⟨fun j => ?_, ?_, ?_, h.waits, fun j => ?_, h.silent, h.running, h.good, h.slice_eq,
    fun hs => h.drained hs, answered_snoc _ h.answered⟩
  · by_cases hj : i = j
    · subst hj
      have horder := (h.order i).snoc (c.op env)
      simp only [Trail.rest, hnone, Option.toList_none, List.append_nil] at horder
      simpa [issued, Trail.rest] using horder
    · have horder := h.order j
      simpa [issued, Trail.rest, hj, Ne.symm hj] using horder
  · simpa [direct_snoc, Clients.direct] using h.direct
  · simpa [sent_snoc, sent] using h.queued
  · by_cases hj : j = i
    · subst hj; simp [Async.next]
    · simpa [Async.next, hj] using h.pending j

/-- The message goes into the queue. -/
lemma sim_push (h : Sim env L k as s t) {i : ι} {m : LogMessage} {c : LogCall}
    (hquiet : s.dtor = .running) (hc : t.pend i = some c) (hm : c.message = m) :
    Sim env L k (as ++ [.push i m]) (Async.next env (.push i m) s)
      { t with ws := t.ws ++ [(i, c)], pend := Function.update t.pend i none } := by
  have hexs : t.exs = [] := h.running hquiet
  refine ⟨fun j => ?_, ?_, ?_, ?_, fun j => ?_, h.silent, h.running, h.good, h.slice_eq,
    fun hs => ?_, answered_snoc _ h.answered⟩
  · have horder := h.order j
    by_cases hj : i = j
    · subst hj
      simp only [Trail.rest, hc, Option.toList_some] at horder
      simpa [issued, Trail.rest, byClient_append, byClient_cons_self] using horder
    · simpa [issued, Trail.rest, byClient_append, byClient_cons_ne hj, Ne.symm hj] using horder
  · simpa [direct_snoc, Clients.direct] using h.direct
  · rw [sent_snoc, ← h.queued, ← hm]
    simp [sent]
  · have hwaits := h.waits
    rw [hexs, List.append_nil] at hwaits
    simp only [Async.next, ← List.append_assoc, hwaits, ← hm, hexs, List.append_nil]
    simp
  · by_cases hj : j = i
    · subst hj; simp [Async.next]
    · simpa [Async.next, hj] using h.pending j
  · simp [Async.next, hquiet, sawEmpty] at hs

/-- A call on a sink overtakes the messages that are on their way. -/
lemma sim_sinkCall (hL : Good L) (h : Sim env L k as s t) {i : ι} {o : Op} {dev : Device}
    (ha : Async.enabled (.sinkCall i o dev) s) :
    Sim env L k (as ++ [.sinkCall i o dev]) (Async.next env (.sinkCall i o dev) s)
      { t with eff := t.eff ++ [(i, o, dev)] } := by
  have hsinks : o.onSinks = true := ha.2.2.1
  refine ⟨fun j => ?_, ?_, ?_, h.waits, h.pending, h.silent, h.running,
    (exec_does h.good (o, dev)).good, ?_, h.drained, fun e he => ?_⟩
  · have horder := h.order j
    by_cases hj : i = j
    · subst hj
      have hinsert := horder.insert hsinks fun z hz => by
        obtain ⟨c, -, rfl⟩ := List.mem_map.mp hz
        rfl
      simpa [issued, Trail.rest, byClient_append, byClient_cons_self] using hinsert
    · simpa [issued, Trail.rest, byClient_append, byClient_cons_ne hj, hj] using horder
  · rw [direct_snoc, ← h.direct]
    simp [onSinks, Clients.direct, hsinks]
  · rw [sent_snoc, ← h.queued, messages_append]
    simp [messages, sent, messageOf_onSinks hsinks]
  · rw [run_snoc]
    exact slice_exec_congr h.good (run_good hL _) h.slice_eq (o, dev)
  · rcases List.mem_append.mp he with he | he
    · exact answered_snoc _ h.answered e he
    · obtain rfl := List.mem_singleton.mp he
      exact Or.inr (by simp [devices])

/-- The message in hand takes effect at the sink, or finds no sink. -/
lemma sim_take (hL : Good L) (h : Sim env L k as s t) (m : LogMessage) (dev : Device) {w : Worker}
    {L' : Logger} (hissue : ∀ i, issued env i [a] = []) (hdirect : Clients.direct [a] = [])
    (hsent : sent [a] = []) (hcome : toCome k s.worker = [m]) (hcome' : toCome k w = [])
    (hgood : Good L') (hslice : slice k L' = slice k (s.logger.dispatch env dev m k).state)
    (hdev : dev = Device.willing ∨ dev ∈ devices (as ++ [a])) :
    ∃ t', Sim env L k (as ++ [a]) { s with logger := L', worker := w } t' := by
  obtain ⟨eff, ws, pend, exs⟩ := t
  have hsame : ∀ i, issued env i (as ++ [a]) = issued env i as := fun i => by
    rw [issued_snoc, hissue, List.append_nil]
  have hwaits := h.waits
  rw [hcome] at hwaits
  have hqueue : toCome k w ++ s.queue = s.queue := by rw [hcome', List.nil_append]
  have hdirect' : Clients.direct (as ++ [a]) = Clients.direct as := by
    rw [direct_snoc, hdirect, List.append_nil]
  have hsent' : sent (as ++ [a]) = sent as := by rw [sent_snoc, hsent, List.append_nil]
  cases ws with
  | nil =>
    -- only the message of the destructor is left, and it is not printed
    have hexs : m :: s.queue = exs := hwaits
    have hm : m.severity = .ealInternal := h.silent m (by rw [← hexs]; exact List.mem_cons_self)
    refine ⟨⟨eff, [], pend, s.queue⟩, ?_⟩
    refine ⟨fun i => ?_, ?_, ?_, hqueue, h.pending, fun m' hm' => ?_, fun hr => ?_, hgood, ?_,
      fun _ => Nat.zero_le _, answered_snoc a h.answered⟩
    · rw [hsame]
      exact h.order i
    · rw [hdirect']
      exact h.direct
    · rw [hsent']
      exact h.queued
    · exact h.silent m' (by rw [← hexs]; exact List.mem_cons_of_mem m hm')
    · have hnone : exs = [] := h.running hr
      exact absurd (hexs.trans hnone) (by simp)
    · rw [hslice, slice_internal h.good env dev hm]
      exact h.slice_eq
  | cons x ws =>
    obtain ⟨i, c⟩ := x
    obtain ⟨rfl, hrest⟩ := List.cons.inj hwaits
    refine ⟨⟨eff ++ [(i, c.op env, dev)], ws, pend, exs⟩, ?_⟩
    refine ⟨fun j => ?_, ?_, ?_, hqueue.trans hrest, h.pending, h.silent, h.running, hgood, ?_,
      fun hs => ?_, fun e he => ?_⟩
    · have horder := h.order j
      rw [hsame]
      by_cases hj : i = j
      · subst hj
        simpa [Trail.rest, byClient_append, byClient_cons_self] using horder
      · simpa [Trail.rest, byClient_append, byClient_cons_ne hj] using horder
    · rw [hdirect', ← h.direct]
      simp [onSinks, LogCall.op, Op.onSinks]
    · rw [hsent', ← h.queued, messages_append]
      simp [messages, messageOf, LogCall.op, LogCall.message]
    · have hrun := slice_exec_congr h.good (run_good hL _) h.slice_eq (c.op env, dev)
      rw [run_snoc, ← hrun, hslice]
      exact (slice_routine h.good env dev c.message).symm
    · have hone := h.drained hs
      rw [hcome] at hone
      exact Nat.le_of_succ_le_succ (hone.trans (Nat.succ_le_succ (Nat.zero_le _)))
    · rcases List.mem_append.mp he with he | he
      · exact answered_snoc a h.answered e he
      · obtain rfl := List.mem_singleton.mp he
        exact hdev

lemma sim_hand (hL : Good L) (h : Sim env L k as s t) (hkeys : KeysOk s.worker) {j : LoggerSink}
    {m : LogMessage} {dev : Device} (ha : Async.enabled (.hand j m dev) s) :
    ∃ t', Sim env L k (as ++ [.hand j m dev]) (Async.next env (.hand j m dev) s) t' := by
  obtain ⟨⟨rest, hw⟩, -⟩ := ha
  have hgood := (dispatch_does h.good (k := j) env dev m).good
  by_cases hj : j = k
  · subst hj
    have hrest : j ∉ rest := (List.nodup_cons.mp (hkeys m _ hw)).1
    refine sim_take hL h m dev (fun _ => rfl) rfl rfl ?_ ?_ hgood rfl (Or.inr ?_)
    · simp [hw, toCome]
    · simp [hw, Worker.advance, toCome, hrest]
    · simp [devices]
  · have hcome : toCome k s.worker.advance = toCome k s.worker := by
      simp [hw, Worker.advance, toCome, Ne.symm hj]
    refine ⟨t, h.frame (fun _ => rfl) rfl rfl ?_ rfl hgood (slice_dispatch_ne h.good hj env dev m)
      id fun hs => ?_⟩
    · exact congrArg (· ++ s.queue) hcome
    · exact (h.drained hs).trans (Nat.le_of_eq (congrArg List.length hcome).symm)

lemma sim_skip (hL : Good L) (h : Sim env L k as s t) (hkeys : KeysOk s.worker) {j : LoggerSink}
    (ha : Async.enabled (.skip j) s) :
    ∃ t', Sim env L k (as ++ [.skip j]) (Async.next env (.skip j) s) t' := by
  obtain ⟨⟨m, rest, hw⟩, habsent⟩ := ha
  by_cases hj : j = k
  · subst hj
    have hrest : j ∉ rest := (List.nodup_cons.mp (hkeys m _ hw)).1
    refine sim_take hL h m Device.willing (fun _ => rfl) rfl rfl ?_ ?_ h.good ?_ (Or.inl rfl)
    · simp [hw, toCome]
    · simp [hw, Worker.advance, toCome, hrest]
    · rw [dispatch_absent habsent]
      rfl
  · have hcome : toCome k s.worker.advance = toCome k s.worker := by
      simp [hw, Worker.advance, toCome, Ne.symm hj]
    exact ⟨t, h.frame_worker (fun _ => rfl) rfl rfl hcome⟩

/-- A step of the destructor that puts nothing into the queue. -/
lemma Sim.frame_dtor (h : Sim env L k as s t) (hissue : ∀ i, issued env i [a] = [])
    (hdirect : Clients.direct [a] = []) (hsent : sent [a] = []) {b : Bool} {d : Dtor}
    (hd : d ≠ .running) (hdrained : sawEmpty d = true → t.ws.length ≤ (toCome k s.worker).length) :
    Sim env L k (as ++ [a]) { s with stop := b, dtor := d } t :=
  h.frame hissue hdirect hsent rfl rfl h.good rfl (fun hr => absurd hr hd) hdrained

lemma sim_poll (h : Sim env L k as s t) (ha : Async.enabled .poll s) :
    Sim env L k (as ++ [.poll]) (Async.next env .poll s) t := by
  obtain ⟨i, hpoll⟩ := ha
  refine h.frame (fun _ => rfl) rfl rfl rfl rfl h.good rfl (fun hr => ?_) fun hs => ?_
  · rcases poll_cases env hpoll with ⟨hd, -⟩ | hd | hd <;> simp [hd] at hr
  · rcases poll_cases env hpoll with ⟨-, hq⟩ | hd | hd
    · -- with an empty queue at most the message in hand is on its way
      have hwaits := congrArg List.length h.waits
      simp only [hq, List.length_append, List.length_map, List.length_nil] at hwaits
      change t.ws.length ≤ (toCome k s.worker).length
      omega
    · simp [hd, sawEmpty] at hs
    · simp [hd, sawEmpty] at hs

lemma sim_pushExit (h : Sim env L k as s t) {m : LogMessage}
    (ha : Async.enabled (.pushExit m) s) :
    Sim env L k (as ++ [.pushExit m]) (Async.next env (.pushExit m) s)
      { t with exs := t.exs ++ [m] } := by
  obtain ⟨⟨b, hb⟩, now, rfl⟩ := ha
  refine ⟨fun i => ?_, ?_, ?_, ?_, h.pending, fun m' hm' => ?_, fun hr => ?_, h.good, h.slice_eq,
    fun hs => h.drained ?_, answered_snoc _ h.answered⟩
  · have hsame : issued env i (as ++ [.pushExit (exitCall now).message]) = issued env i as := by
      simp [issued]
    rw [hsame]
    exact h.order i
  · simpa [direct_snoc, Clients.direct] using h.direct
  · simpa [sent_snoc, sent] using h.queued
  · rw [← List.append_assoc, ← h.waits]
    exact (List.append_assoc _ _ _).symm
  · rcases List.mem_append.mp hm' with hm' | hm'
    · exact h.silent m' hm'
    · rw [List.mem_singleton.mp hm']
      rfl
  · simp [Async.next, hb, Dtor.advance] at hr
  · simpa [Async.next, hb, Dtor.advance, sawEmpty] using hs

/-- **One step.** -/
theorem sim_step (hL : Good L) (h : Sim env L k as s t) (hacc : Accounted as s)
    (hclosing : Closing as s) (ha : Async.enabled a s) :
    ∃ t', Sim env L k (as ++ [a]) (Async.next env a s) t' := by
  cases a with
  | call i c => exact ⟨_, sim_call h ha⟩
  | push i m =>
    have hp : s.pending i = some m := ha
    have hrun : s.dtor = .running := hclosing.quiet.resolve_right fun hq => by simp [hq i] at hp
    obtain ⟨c, hc, hm⟩ := Option.map_eq_some_iff.mp ((h.pending i).symm.trans hp)
    exact ⟨_, sim_push h hrun hc hm⟩
  | sinkCall i o dev => exact ⟨_, sim_sinkCall hL h ha⟩
  | queueEmpty i b =>
    exact ⟨t, h.frame (fun _ => rfl) rfl rfl rfl rfl h.good rfl id h.drained⟩
  | test =>
    have hw : s.worker = .testing := ha
    refine ⟨t, h.frame_worker (fun _ => rfl) rfl rfl ?_⟩
    cases s.stop <;> simp [hw, toCome]
  | pop m =>
    obtain ⟨hw, hhead⟩ := ha
    obtain ⟨q, hq⟩ := List.head?_eq_some_iff.mp hhead
    refine ⟨t, h.frame (fun _ => rfl) rfl rfl ?_ rfl h.good rfl id fun hs => ?_⟩
    · simp [Async.next, hw, hq, toCome]
    · have hnone := h.drained hs
      rw [hw] at hnone
      exact hnone.trans (Nat.zero_le _)
  | hand j m dev => exact sim_hand hL h hacc.keys ha
  | skip j => exact sim_skip hL h hacc.keys ha
  | finish m =>
    have hw : s.worker = .dispatching m [] := ha
    refine ⟨t, h.frame_worker (fun _ => rfl) rfl rfl ?_⟩
    simp [hw, toCome]
  | destroy =>
    obtain ⟨hrun, -⟩ := ha
    refine ⟨t, h.frame_dtor (fun _ => rfl) rfl rfl ?_ fun hs => ?_⟩
    · simp [hrun, Dtor.advance]
    · simp [hrun, Dtor.advance, sawEmpty] at hs
  | poll => exact ⟨t, sim_poll h ha⟩
  | setStop =>
    obtain ⟨b, hb⟩ := ha
    refine ⟨t, h.frame_dtor (fun _ => rfl) rfl rfl ?_ fun hs => h.drained ?_⟩
    · simp [hb, Dtor.advance]
    · simpa [hb, Dtor.advance, sawEmpty] using hs
  | pushExit m => exact ⟨_, sim_pushExit h ha⟩
  | join =>
    obtain ⟨⟨b, hb⟩, -⟩ := ha
    refine ⟨t, h.frame_dtor (fun _ => rfl) rfl rfl ?_ fun hs => h.drained ?_⟩
    · simp [hb, Dtor.advance]
    · simpa [hb, Dtor.advance, sawEmpty] using hs

end Step

/-! ### Runs -/

lemma sim_of_legal (hL : Good L) {as : List (Label ι)}
    (h : (Async.lts env).Legal (Async.start L) as) :
    ∃ t, Sim env L k as ((Async.lts env).run (Async.start L) as) t := by
  refine h.history (p := fun as s => ∃ t, Sim env L k as s t) ⟨⟨[], [], fun _ => none, []⟩, ?_⟩
    fun as a hlegal ih ha => ?_
  · exact ⟨fun _ => Reorder.Advanced.refl [], rfl, rfl, rfl, fun _ => rfl, by simp, fun _ => rfl,
      hL, rfl, fun _ => Nat.zero_le _, by simp⟩
  · obtain ⟨t, ht⟩ := ih
    exact sim_step hL ht (accounted_of_legal hlegal) (closing_of_legal hlegal) ha

/-- After `join`, if the queue was seen empty, every call has taken effect. -/
lemma Sim.rest_of_joined {as : List (Label ι)} {s : Async ι} {t : Trail ι}
    (h : Sim env L k as s t) (hclosing : Closing as s) (hjoined : s.dtor = .joined true) (i : ι) :
    t.rest i = [] := by
  have hws : t.ws = [] := by
    have hdrained := h.drained (by rw [hjoined]; rfl)
    rw [hclosing.joined true hjoined] at hdrained
    exact List.eq_nil_of_length_eq_zero (Nat.le_zero.mp hdrained)
  have hquiet := hclosing.quiet.resolve_left (by simp [hjoined]) i
  have hpend : t.pend i = none := by simpa [hquiet] using (h.pending i).symm
  simp [Trail.rest, hws, hpend]

/-- One order of the calls of all clients that explains what a sink is and has been handed; the
calls `rest` of `write_log` have not got there yet. -/
structure Linearized (env : Env) (L : Logger) (k : LoggerSink) (as : List (Label ι)) (s : Async ι)
    (eff : List (Effect ι)) (rest : ι → List LogCall) : Prop where
  order : ∀ i, Reorder.Advanced Op.onSinks (issued env i as)
    ((byClient i eff).map Prod.fst ++ (rest i).map (LogCall.op env))
  direct : onSinks eff = direct as
  queued : messages eff <+: sent as
  state : slice k s.logger = slice k (L.run (eff.map Prod.snd))
  all : s.dtor = .joined true → ∀ i, rest i = []

lemma Sim.linearized {as : List (Label ι)} {s : Async ι} {t : Trail ι} (h : Sim env L k as s t)
    (hclosing : Closing as s) : Linearized env L k as s t.eff t.rest := by
  refine ⟨h.order, h.direct, ?_, h.slice_eq, h.rest_of_joined hclosing⟩
  rw [← h.queued]
  exact List.prefix_append _ _

/-- One client logs, the other changes the template while the message is on its way. -/
def templateInTime : List (Label Bool) :=
  let m := (LogCall.plain 0 [] "a".toList .ealInfo).message
  [.call true (.plain 0 [] "a".toList .ealInfo), .push true m, .test, .pop m,
    .sinkCall false (.setMsgTemplate .ealConsole "%s".toList) Device.willing,
    .hand .ealConsole m Device.willing, .skip .ealSyslog]

end Ealogger.Clients
