import Ealogger.Async

/-!
What an asynchronous `Logger` does with the messages it is given, in every state that any
interleaving of clients, background thread and destructor leads to: none is lost, none is
dispatched twice, none overtakes another.
-/

namespace Ealogger.Delivery

variable {ι : Type} [DecidableEq ι] {env : Env} {L : Logger}

/-! ### Histories, one label longer -/

section Snoc

variable (as : List (Label ι)) (a : Label ι)

omit [DecidableEq ι] in
@[simp] lemma pushed_snoc : pushed (as ++ [a]) = pushed as ++ a.pushes.toList := by
  cases h : a.pushes <;> simp [pushed, h]

omit [DecidableEq ι] in
@[simp] lemma taken_snoc : taken (as ++ [a]) = taken as ++ a.takes.toList := by
  cases h : a.takes <;> simp [taken, h]

omit [DecidableEq ι] in
@[simp] lemma completed_snoc : completed (as ++ [a]) = completed as ++ a.completes.toList := by
  cases h : a.completes <;> simp [completed, h]

omit [DecidableEq ι] in
@[simp] lemma handed_snoc (k : LoggerSink) :
    handed (as ++ [a]) k = handed as k ++ (a.hands k).toList := by
  cases h : a.hands k <;> simp [handed, h]

@[simp] lemma called_snoc (i : ι) : called (as ++ [a]) i = called as i ++ (a.calls i).toList := by
  cases h : a.calls i <;> simp [called, h]

@[simp] lemma sentBy_append (i : ι) (ps qs : List (Option ι × LogMessage)) :
    sentBy i (ps ++ qs) = sentBy i ps ++ sentBy i qs := by
  simp [sentBy]

end Snoc

/-! ### The background thread -/

@[simp] lemma inHand_advance (w : Worker) : w.advance.inHand = w.inHand := by
  rcases w with _ | _ | ⟨m, _ | ⟨k, rest⟩⟩ | _ <;> rfl

/-- What has been handed to a sink of the message in hand. -/
def handedTo (k : LoggerSink) : Worker → List LogMessage
  | .dispatching m rest => if k ∈ rest then [] else [m]
  | _ => []

/-! ### One step: what goes in comes out or stays -/

section Step

variable (env) {s : Async ι} {a : Label ι}

lemma step_queue (ha : Async.enabled a s) :
    a.takes.toList ++ (Async.next env a s).queue = s.queue ++ (a.pushes.map Prod.snd).toList := by
  cases a with
  | pop m =>
    obtain ⟨q, hq⟩ := List.head?_eq_some_iff.mp ha.2
    simp [Label.takes, Label.pushes, Async.next, hq]
  | _ => simp [Label.takes, Label.pushes, Async.next]

lemma step_inHand (ha : Async.enabled a s) :
    s.worker.inHand ++ a.takes.toList =
      a.completes.toList ++ (Async.next env a s).worker.inHand := by
  cases a with
  | test =>
    have hw : s.worker = .testing := ha
    cases hs : s.stop <;> simp [Label.takes, Label.completes, Async.next, Worker.inHand, hw, hs]
  | pop m => simp [Label.takes, Label.completes, Async.next, Worker.inHand, ha.1]
  | finish m =>
    have hw : s.worker = .dispatching m [] := ha
    simp [Label.takes, Label.completes, Async.next, Worker.inHand, hw]
  | _ => simp [Label.takes, Label.completes, Async.next]

lemma step_pending (ha : Async.enabled a s) (i : ι) :
    (s.pending i).toList ++ (a.calls i).toList =
      sentBy i a.pushes.toList ++ ((Async.next env a s).pending i).toList := by
  cases a with
  | call j c =>
    by_cases hj : j = i
    · subst hj; simp [Label.calls, Label.pushes, Async.next, sentBy, ha.1]
    · simp [Label.calls, Label.pushes, Async.next, sentBy, hj, Ne.symm hj]
  | push j m =>
    have hp : s.pending j = some m := ha
    by_cases hj : j = i
    · subst hj; simp [Label.calls, Label.pushes, Async.next, sentBy, hp]
    · simp [Label.calls, Label.pushes, Async.next, sentBy, hj, Ne.symm hj]
  | _ => simp [Label.calls, Label.pushes, Async.next, sentBy]

/-- The keys still to come are some of the keys of a traversal, without repetition. -/
def KeysOk (w : Worker) : Prop := ∀ m rest, w = .dispatching m rest → rest.Nodup

lemma advance_keysOk {w : Worker} (h : KeysOk w) : KeysOk w.advance := by
  intro m rest hw
  rcases w with _ | _ | ⟨m', _ | ⟨k, rest'⟩⟩ | _ <;> simp only [Worker.advance] at hw
  · cases hw
  · cases hw
  · exact h m rest hw
  · obtain ⟨rfl, rfl⟩ : m' = m ∧ rest' = rest := by simpa using hw
    exact (h _ _ rfl).of_cons
  · cases hw

lemma step_keysOk (ha : Async.enabled a s) (h : KeysOk s.worker) :
    KeysOk (Async.next env a s).worker := by
  cases a with
  | test => cases hs : s.stop <;> simp [Async.next, KeysOk, hs]
  | pop m =>
    intro m' rest hw
    simp only [Async.next, Worker.dispatching.injEq] at hw
    exact hw.2 ▸ nodup_sinkKeys
  | hand k m dev => exact advance_keysOk h
  | skip k => exact advance_keysOk h
  | finish m => simp [Async.next, KeysOk]
  | _ => exact h

lemma step_handedTo (ha : Async.enabled a s) (hk : KeysOk s.worker) {k : LoggerSink}
    (hpresent : (s.logger.loggerSinkMap k).isSome = true) :
    handedTo k s.worker ++ (a.hands k).toList =
      a.completes.toList ++ handedTo k (Async.next env a s).worker := by
  cases a with
  | test =>
    have hw : s.worker = .testing := ha
    cases hs : s.stop <;> simp [Label.hands, Label.completes, Async.next, handedTo, hw, hs]
  | pop m => simp [Label.hands, Label.completes, Async.next, handedTo, ha.1]
  | hand j m dev =>
    obtain ⟨⟨rest, hw⟩, -⟩ := ha
    have hnodup := List.nodup_cons.mp (hk m _ hw)
    by_cases hj : j = k
    · subst hj
      simp [Label.hands, Label.completes, Async.next, handedTo, hw, Worker.advance, hnodup.1]
    · simp [Label.hands, Label.completes, Async.next, handedTo, hw, Worker.advance, hj, Ne.symm hj]
  | skip j =>
    obtain ⟨⟨m, rest, hw⟩, habsent⟩ := ha
    -- the entry of `k` is there, so it is another one that is passed over
    have hj : k ≠ j := by
      rintro rfl
      simp [habsent] at hpresent
    simp [Label.hands, Label.completes, Async.next, handedTo, hw, Worker.advance, hj]
  | finish m =>
    have hw : s.worker = .dispatching m [] := ha
    simp [Label.hands, Label.completes, Async.next, handedTo, hw]
  | _ => simp [Label.hands, Label.completes, Async.next]

end Step

/-! ### Runs -/

/-- Where the messages are that were ever given to the `Logger`. -/
structure Accounted (as : List (Label ι)) (s : Async ι) : Prop where
  fifo : taken as ++ s.queue = (pushed as).map Prod.snd
  inHand : taken as = completed as ++ s.worker.inHand
  sent : ∀ i, sentBy i (pushed as) ++ (s.pending i).toList = called as i
  keys : KeysOk s.worker

lemma accounted_snoc {as : List (Label ι)} {s : Async ι} {a : Label ι} (h : Accounted as s)
    (ha : Async.enabled a s) : Accounted (as ++ [a]) (Async.next env a s) := by
  constructor
  · rw [taken_snoc, pushed_snoc, List.append_assoc, step_queue env ha, ← List.append_assoc, h.fifo]
    cases a.pushes <;> simp
  · rw [taken_snoc, completed_snoc, List.append_assoc, ← step_inHand env ha, ← List.append_assoc,
      h.inHand]
  · intro i
    rw [pushed_snoc, called_snoc, sentBy_append, List.append_assoc, ← step_pending env ha i,
      ← List.append_assoc, h.sent i]
  · exact step_keysOk env ha h.keys

lemma accounted_of_legal {as : List (Label ι)} (h : (Async.lts env).Legal (Async.start L) as) :
    Accounted as ((Async.lts env).run (Async.start L) as) :=
  h.history (p := Accounted) ⟨rfl, rfl, fun _ => rfl, by simp [Async.start, KeysOk]⟩
    fun _ _ _ has ha => accounted_snoc has ha

/-- The sink has been in the map from the start of the run on. -/
def Throughout (env : Env) (L : Logger) (k : LoggerSink) (as : List (Label ι)) : Prop :=
  ∀ pre, pre <+: as →
    (((Async.lts env).run (Async.start L) pre).logger.loggerSinkMap k).isSome = true

lemma handed_of_legal {as : List (Label ι)} (h : (Async.lts env).Legal (Async.start L) as)
    {k : LoggerSink} (hk : Throughout env L k as) :
    handed as k = completed as ++ handedTo k ((Async.lts env).run (Async.start L) as).worker := by
  let p : List (Label ι) → Async ι → Prop := fun as s =>
    Throughout env L k as → handed as k = completed as ++ handedTo k s.worker
  refine h.history (p := p) (fun _ => rfl) (fun as a has ih ha hk => ?_) hk
  have hpre : ∀ pre, pre <+: as → pre <+: as ++ [a] := fun pre hp => hp.trans (as.prefix_append [a])
  have hstep := step_handedTo env ha (accounted_of_legal has).keys (hk as (as.prefix_append [a]))
  rw [handed_snoc, completed_snoc, ih fun pre hp => hk pre (hpre pre hp), List.append_assoc, hstep,
    List.append_assoc]
  rfl

/-- First in, first out: the messages taken from the queue and those still in it are the ones
pushed, in this order; a client's are taken in the order of its calls; a sink that is there
throughout has been handed the messages taken, all but the one that is on its way to it. -/
structure Fifo (env : Env) (L : Logger) (as : List (Label ι)) (s : Async ι) : Prop where
  pushed : taken as ++ s.queue = (pushed as).map Prod.snd
  client : ∀ i, sentBy i ((Ealogger.pushed as).take (taken as).length) <+: called as i
  taken : taken as = completed as ++ s.worker.inHand
  handed : ∀ k, Throughout env L k as → handed as k = completed as ++ handedTo k s.worker

/-- **Delivery.** Every state of every run. -/
theorem fifo_of_legal (env : Env) (L : Logger) (as : List (Label ι))
    (h : (Async.lts env).Legal (Async.start L) as) :
    Fifo env L as ((Async.lts env).run (Async.start L) as) := by
  have hacc := accounted_of_legal h
  refine ⟨hacc.fifo, fun i => ?_, hacc.inHand, fun k hk => handed_of_legal h hk⟩
  calc sentBy i ((pushed as).take (taken as).length) <+: sentBy i (pushed as) :=
        ((List.take_prefix _ _).filter _).map _
    _ <+: called as i := hacc.sent i ▸ List.prefix_append _ _

/-- Two clients, of which the second is faster; the first message is on its way. -/
theorem fifo_two_clients :
    Fifo Env.bare Logger.console
      [.call (0 : Fin 2) (.plain 0 [] "a".toList .ealInfo),
        .call 1 (.plain 0 [] "b".toList .ealInfo),
        .push 1 (LogCall.plain 0 [] "b".toList .ealInfo).message,
        .push 0 (LogCall.plain 0 [] "a".toList .ealInfo).message, .test,
        .pop (LogCall.plain 0 [] "b".toList .ealInfo).message]
      ((Async.lts Env.bare).run (Async.start Logger.console)
        [.call (0 : Fin 2) (.plain 0 [] "a".toList .ealInfo),
          .call 1 (.plain 0 [] "b".toList .ealInfo),
          .push 1 (LogCall.plain 0 [] "b".toList .ealInfo).message,
          .push 0 (LogCall.plain 0 [] "a".toList .ealInfo).message, .test,
          .pop (LogCall.plain 0 [] "b".toList .ealInfo).message]) :=
  fifo_of_legal _ _ _ ⟨⟨rfl, rfl⟩, ⟨rfl, rfl⟩, rfl, rfl, rfl, ⟨rfl, rfl⟩, trivial⟩

end Ealogger.Delivery
