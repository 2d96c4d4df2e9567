import Ealogger.Delivery

/-!
What a client may conclude from an empty queue.

The examples that come with the library wait for `queue_empty()` before they change a
severity or stop a timer. But the background thread takes a message out of the queue before
it hands it to the sinks.
-/

namespace Ealogger.Barrier

open Delivery

variable {ι : Type} [DecidableEq ι] {env : Env} {L : Logger}

/-- Some step hands over a message that was taken out of the queue before the first step. -/
def HandsEarlier (as : List (Label ι)) : Prop :=
  ∃ pre k m dev post, as = pre ++ .hand k m dev :: post ∧ taken pre = []

/-- All that was pushed in the steps `pre` has been dispatched by then, and nothing the client
does in the steps `post` can affect it any more. -/
structure Complete (env : Env) (L : Logger) (pre post : List (Label ι)) : Prop where
  completed : completed pre = (pushed pre).map Prod.snd
  handed : ∀ k, Throughout env L k pre → handed pre k = (pushed pre).map Prod.snd
  settled : ¬ HandsEarlier post

/-- While nothing is taken from the queue, an idle background thread stays idle. -/
lemma inHand_run {s : Async ι} {as : List (Label ι)} (h : (Async.lts env).Legal s as)
    (hs : s.worker.inHand = []) (has : taken as = []) :
    ((Async.lts env).run s as).worker.inHand = [] := by
  induction as generalizing s with
  | nil => exact hs
  | cons a as ih =>
    have hcons : a.takes.toList ++ taken as = [] := by
      rw [← has]
      cases ht : a.takes <;> simp [taken, ht]
    obtain ⟨ha, has⟩ := List.append_eq_nil_iff.mp hcons
    have hstep := step_inHand env h.1
    rw [hs, ha] at hstep
    exact ih h.2 (List.append_eq_nil_iff.mp hstep.symm).2 has

lemma not_handsEarlier {s : Async ι} {as : List (Label ι)} (h : (Async.lts env).Legal s as)
    (hs : s.worker.inHand = []) : ¬ HandsEarlier as := by
  rintro ⟨pre, k, m, dev, post, rfl, hpre⟩
  obtain ⟨hlegal, hhand, -⟩ := (Lts.legal_append _ _ _ _).mp h
  have hidle := inHand_run hlegal hs hpre
  obtain ⟨⟨rest, hw⟩, -⟩ := hhand
  rw [hw] at hidle
  exact absurd hidle (by simp [Worker.inHand])

/-- One observation of the empty queue. -/
lemma complete_iff {pre post : List (Label ι)} {i : ι}
    (h : (Async.lts env).Legal (Async.start L) (pre ++ .queueEmpty i true :: post)) :
    Complete env L pre post ↔
      ((Async.lts env).run (Async.start L) pre).worker.inHand = [] := by
  obtain ⟨hpre, hempty, hpost⟩ := (Lts.legal_append _ _ _ _).mp h
  have hacc := accounted_of_legal hpre
  have hqueue : ((Async.lts env).run (Async.start L) pre).queue = [] :=
    List.isEmpty_iff.mp hempty.2.2.symm
  have htaken : completed pre ++ ((Async.lts env).run (Async.start L) pre).worker.inHand =
      (pushed pre).map Prod.snd := by
    rw [← hacc.fifo, hqueue, List.append_nil, hacc.inHand]
  constructor
  · intro hc
    rw [← hc.completed] at htaken
    simpa using htaken
  · intro hidle
    have hdone : completed pre = (pushed pre).map Prod.snd := by
      rw [← htaken, hidle, List.append_nil]
    refine ⟨hdone, fun k hk => ?_, not_handsEarlier hpost hidle⟩
    have hto : handedTo k ((Async.lts env).run (Async.start L) pre).worker = [] := by
      cases hw : ((Async.lts env).run (Async.start L) pre).worker with
      | dispatching m rest =>
        rw [hw] at hidle
        exact absurd hidle (by simp [Worker.inHand])
      | _ => rfl
    rw [handed_of_legal hpre hk, hto, List.append_nil, hdone]

/-- **When an empty queue means that the work is done.** Along a run, everything pushed before
is dispatched and settled each time `queue_empty()` returns true, if and only if each of these
times finds the background thread without a message in hand. -/
theorem complete_of_empty_iff (env : Env) (L : Logger) (as : List (Label ι))
    (h : (Async.lts env).Legal (Async.start L) as) :
    (∀ pre i post, as = pre ++ .queueEmpty i true :: post → Complete env L pre post) ↔
      ∀ pre i post, as = pre ++ .queueEmpty i true :: post →
        ((Async.lts env).run (Async.start L) pre).worker.inHand = [] := by
  constructor
  · intro hall pre i post has
    exact (complete_iff (has ▸ h)).mp (hall pre i post has)
  · intro hall pre i post has
    exact (complete_iff (has ▸ h)).mpr (hall pre i post has)

/-- One message is logged and popped, and not handed to the console when the client looks. -/
def popped : List (Label Unit) :=
  [.call () (.plain 0 [] "a".toList .ealInfo),
    .push () (LogCall.plain 0 [] "a".toList .ealInfo).message, .test,
    .pop (LogCall.plain 0 [] "a".toList .ealInfo).message]

theorem complete_of_empty_iff_popped :
    (∀ pre i post, popped ++ [.queueEmpty () true] = pre ++ .queueEmpty i true :: post →
        Complete Env.bare Logger.console pre post) ↔
      ∀ pre i post, popped ++ [.queueEmpty () true] = pre ++ .queueEmpty i true :: post →
        ((Async.lts Env.bare).run (Async.start Logger.console) pre).worker.inHand = [] :=
  complete_of_empty_iff Env.bare Logger.console _
    ⟨⟨rfl, rfl⟩, rfl, rfl, ⟨rfl, rfl⟩, ⟨rfl, rfl, rfl⟩, trivial⟩

/-- The queue is empty, and the client raises the minimum level under the message's feet. -/
theorem complete_fails_on_popped :
    ¬ ∀ (env : Env) (L : Logger) (as : List (Label Unit)),
      (Async.lts env).Legal (Async.start L) as → ∀ pre i post,
      as = pre ++ .queueEmpty i true :: post → Complete env L pre post := by
  intro h
  let post : List (Label Unit) :=
    [.sinkCall () (.setMinLvl .ealConsole .ealError) Device.willing,
      .hand .ealConsole (LogCall.plain 0 [] "a".toList .ealInfo).message Device.willing]
  have hlegal : (Async.lts Env.bare).Legal (Async.start Logger.console)
      (popped ++ .queueEmpty () true :: post) :=
    ⟨⟨rfl, rfl⟩, rfl, rfl, ⟨rfl, rfl⟩, ⟨rfl, rfl, rfl⟩,
      ⟨rfl, rfl, rfl, fun hr => absurd hr (by decide)⟩, ⟨⟨_, rfl⟩, rfl⟩, trivial⟩
  have hrun := h Env.bare Logger.console _ hlegal popped () post rfl
  exact absurd hrun.completed (by decide)

end Ealogger.Barrier
