import Ealogger.Clients

/-!
A synchronous `Logger` that several threads use at once.

`write_log` goes from sink to sink in the thread that calls it, and takes the mutex of each sink
for the turn of that sink only. Other calls can come in between, so that the message of one
thread may be first at one sink and second at the next. Seen from one sink every call happens at
one moment while it is being made.
-/

namespace Ealogger.Threads

open Slice FileFailure
open Clients (Effect byClient)

variable {ι : Type} [DecidableEq ι] {env : Env} {L : Logger} {k : LoggerSink}

/-- The `Logger`, and for each thread the call of `write_log` it is in, with the sinks whose turn
has not come. -/
structure Sync (ι : Type) where
  logger : Logger
  inside : ι → Option (LogCall × List LoggerSink)

/-- What one thread does under one mutex. -/
inductive Label (ι : Type)
  | call (i : ι) (c : LogCall)
  | hand (i : ι) (j : LoggerSink) (c : LogCall) (dev : Device)
  | skip (i : ι) (j : LoggerSink) (c : LogCall)
  | finish (i : ι)
  | sinkCall (i : ι) (o : Op) (dev : Device)

def enabled (a : Label ι) (s : Sync ι) : Prop :=
  match a with
  | .call i _ => s.inside i = none
  | .hand i j c _ =>
    (∃ rest, s.inside i = some (c, j :: rest)) ∧ (s.logger.loggerSinkMap j).isSome = true
  | .skip i j c => (∃ rest, s.inside i = some (c, j :: rest)) ∧ s.logger.loggerSinkMap j = none
  | .finish i => ∃ c, s.inside i = some (c, [])
  -- entries come and go while no iterator stands on the map
  | .sinkCall i o _ => s.inside i = none ∧ o.onSinks = true ∧
      (o.rebuilds s.logger = true → ∀ j, s.inside j = none)

def advance : Option (LogCall × List LoggerSink) → Option (LogCall × List LoggerSink)
  | some (c, _ :: rest) => some (c, rest)
  | x => x

def next (env : Env) (a : Label ι) (s : Sync ι) : Sync ι :=
  match a with
  | .call i c => { s with inside := Function.update s.inside i (some (c, sinkKeys)) }
  | .hand i j c dev =>
    { logger := (s.logger.dispatch env dev c.message j).state
      inside := Function.update s.inside i (advance (s.inside i)) }
  | .skip i _ _ => { s with inside := Function.update s.inside i (advance (s.inside i)) }
  | .finish i => { s with inside := Function.update s.inside i none }
  | .sinkCall _ o dev => { s with logger := (s.logger.exec (o, dev)).state }

def lts (env : Env) : Lts (Sync ι) (Label ι) := ⟨enabled, next env⟩

def start (L : Logger) : Sync ι := ⟨L, fun _ => none⟩

/-! ### What a sink sees of a run -/

/-- What one thread does, call by call. -/
def issued (env : Env) (i : ι) (as : List (Label ι)) : List Op :=
  as.filterMap fun
    | .call j c => if j = i then some (c.op env) else none
    | .sinkCall j o _ => if j = i then some o else none
    | _ => none

/-- The calls as they take effect at the sink: a message when its turn comes, any other call
when it is made. -/
def effects (env : Env) (k : LoggerSink) (as : List (Label ι)) : List (Effect ι) :=
  as.filterMap fun
    | .hand i j c dev => if j = k then some (i, c.op env, dev) else none
    | .skip i j c => if j = k then some (i, c.op env, Device.willing) else none
    | .sinkCall i o dev => some (i, o, dev)
    | _ => none

/-- The call a thread is in, if it is still to take effect at the sink. -/
def ahead (env : Env) (k : LoggerSink) : Option (LogCall × List LoggerSink) → List Op
  | some (c, rest) => if k ∈ rest then [c.op env] else []
  | none => []

lemma issued_snoc (i : ι) (as : List (Label ι)) (a : Label ι) :
    issued env i (as ++ [a]) = issued env i as ++ issued env i [a] := by
  simp [issued]

/-- The effects of a run at one sink explain its state; for each thread they are its calls in
the order of its program, all but the one that is still to get there. -/
structure Explains (env : Env) (L : Logger) (k : LoggerSink) (as : List (Label ι)) (s : Sync ι) :
    Prop where
  state : slice k s.logger = slice k (L.run ((effects env k as).map Prod.snd))
  order : ∀ i, (byClient i (effects env k as)).map Prod.fst ++ ahead env k (s.inside i) =
    issued env i as

/-- No sink has two turns, and the objects are where they belong. -/
structure Tidy (s : Sync ι) : Prop where
  good : Good s.logger
  keys : ∀ i c rest, s.inside i = some (c, rest) → rest.Nodup

/-! ### One step -/

section Step

variable {as : List (Label ι)} {s : Sync ι} {a : Label ι}

lemma Tidy.advance (h : Tidy s) (i : ι) {L' : Logger} (hL' : Good L') :
    Tidy ⟨L', Function.update s.inside i (Threads.advance (s.inside i))⟩ := by
  refine ⟨hL', fun j c rest hj => ?_⟩
  by_cases hij : j = i
  · subst hij
    simp only [Function.update_self] at hj
    cases hin : s.inside j with
    | none => simp [hin, Threads.advance] at hj
    | some x =>
      obtain ⟨c', rest'⟩ := x
      have hnodup := h.keys j c' rest' hin
      cases rest' with
      | nil =>
        obtain ⟨-, rfl⟩ : c' = c ∧ ([] : List LoggerSink) = rest := by
          simpa [hin, Threads.advance] using hj
        exact List.nodup_nil
      | cons k rest' =>
        obtain ⟨-, rfl⟩ : c' = c ∧ rest' = rest := by simpa [hin, Threads.advance] using hj
        exact hnodup.of_cons
  · exact h.keys j c rest (by simpa [hij] using hj)

lemma tidy_step (h : Tidy s) (ha : enabled a s) : Tidy (next env a s) := by
  cases a with
  | call i c =>
    refine ⟨h.good, fun j c' rest hj => ?_⟩
    by_cases hij : j = i
    · subst hij
      obtain ⟨-, rfl⟩ : c = c' ∧ sinkKeys = rest := by simpa [next] using hj
      exact nodup_sinkKeys
    · exact h.keys j c' rest (by simpa [next, hij] using hj)
  | hand i j c dev => exact h.advance i (dispatch_does h.good env dev c.message).good
  | skip i j c => exact h.advance i h.good
  | finish i =>
    refine ⟨h.good, fun j c' rest hj => ?_⟩
    by_cases hij : j = i
    · subst hij; simp [next] at hj
    · exact h.keys j c' rest (by simpa [next, hij] using hj)
  | sinkCall i o dev => exact ⟨(exec_does h.good (o, dev)).good, h.keys⟩

/-- The turn of the sink. -/
lemma order_turn (h : ∀ i, (byClient i (effects env k as)).map Prod.fst ++
      ahead env k (s.inside i) = issued env i as) (ht : Tidy s) {i : ι} {c : LogCall}
    {dev : Device} {rest : List LoggerSink} (hin : s.inside i = some (c, k :: rest)) (j : ι) :
    (byClient j (effects env k as ++ [(i, c.op env, dev)])).map Prod.fst ++
      ahead env k (Function.update s.inside i (advance (s.inside i)) j) = issued env j as := by
  have hrest : k ∉ rest := (List.nodup_cons.mp (ht.keys i c _ hin)).1
  rw [← h j]
  by_cases hij : i = j
  · subst hij
    simp [Clients.byClient_append, Clients.byClient_cons_self, hin, advance, ahead, hrest]
  · simp [Clients.byClient_append, Clients.byClient_cons_ne hij, Ne.symm hij]

/-- The turn of another sink. -/
lemma order_other (h : ∀ i, (byClient i (effects env k as)).map Prod.fst ++
      ahead env k (s.inside i) = issued env i as) {i : ι} {c : LogCall} {j : LoggerSink}
    (hj : j ≠ k) {rest : List LoggerSink} (hin : s.inside i = some (c, j :: rest)) (i' : ι) :
    (byClient i' (effects env k as)).map Prod.fst ++
      ahead env k (Function.update s.inside i (advance (s.inside i)) i') = issued env i' as := by
  rw [← h i']
  by_cases hii : i' = i
  · subst hii
    simp [hin, advance, ahead, Ne.symm hj]
  · simp [hii]

/-- **One step.** -/
theorem explains_step (hL : Good L) (h : Explains env L k as s) (ht : Tidy s)
    (ha : enabled a s) : Explains env L k (as ++ [a]) (next env a s) := by
  obtain ⟨hstate, horder⟩ := h
  cases a with
  | call i c =>
    have hnone : s.inside i = none := ha
    have heff : effects env k (as ++ [.call i c]) = effects env k as := by simp [effects]
    refine ⟨by rw [heff]; exact hstate, fun j => ?_⟩
    rw [heff, issued_snoc, ← horder j]
    by_cases hij : i = j
    · subst hij
      simp [next, issued, ahead, hnone, mem_sinkKeys]
    · simp [next, issued, hij, Ne.symm hij]
  | hand i j c dev =>
    obtain ⟨⟨rest, hin⟩, -⟩ := ha
    have hsame : ∀ i', issued env i' (as ++ [.hand i j c dev]) = issued env i' as := by
      simp [issued]
    by_cases hj : j = k
    · subst hj
      have heff : effects env j (as ++ [.hand i j c dev]) =
          effects env j as ++ [(i, c.op env, dev)] := by simp [effects]
      refine ⟨?_, fun i' => ?_⟩
      · have hrun := slice_exec_congr ht.good (run_good hL _) hstate (c.op env, dev)
        rw [heff, Clients.run_snoc, ← hrun]
        exact (slice_routine ht.good env dev c.message).symm
      · rw [heff, hsame]
        exact order_turn horder ht hin i'
    · have heff : effects env k (as ++ [.hand i j c dev]) = effects env k as := by
        simp [effects, hj]
      refine ⟨?_, fun i' => ?_⟩
      · rw [heff, ← hstate]
        exact slice_dispatch_ne ht.good hj env dev c.message
      · rw [heff, hsame]
        exact order_other horder hj hin i'
  | skip i j c =>
    obtain ⟨⟨rest, hin⟩, habsent⟩ := ha
    have hsame : ∀ i', issued env i' (as ++ [.skip i j c]) = issued env i' as := by
      simp [issued]
    by_cases hj : j = k
    · subst hj
      have heff : effects env j (as ++ [.skip i j c]) =
          effects env j as ++ [(i, c.op env, Device.willing)] := by simp [effects]
      refine ⟨?_, fun i' => ?_⟩
      · have hrun := slice_exec_congr ht.good (run_good hL _) hstate (c.op env, Device.willing)
        have hskip := slice_routine (k := j) ht.good env Device.willing c.message
        rw [dispatch_absent habsent] at hskip
        rw [heff, Clients.run_snoc, ← hrun]
        exact hskip.symm
      · rw [heff, hsame]
        exact order_turn horder ht hin i'
    · have heff : effects env k (as ++ [.skip i j c]) = effects env k as := by
        simp [effects, hj]
      refine ⟨by rw [heff]; exact hstate, fun i' => ?_⟩
      rw [heff, hsame]
      exact order_other horder hj hin i'
  | finish i =>
    obtain ⟨c, hin⟩ := ha
    have heff : effects env k (as ++ [.finish i]) = effects env k as := by simp [effects]
    refine ⟨by rw [heff]; exact hstate, fun j => ?_⟩
    have hsame : issued env j (as ++ [.finish i]) = issued env j as := by simp [issued]
    rw [heff, hsame, ← horder j]
    by_cases hij : j = i
    · subst hij
      simp [next, hin, ahead]
    · simp [next, hij]
  | sinkCall i o dev =>
    obtain ⟨hnone, -, -⟩ := ha
    have heff : effects env k (as ++ [.sinkCall i o dev]) =
        effects env k as ++ [(i, o, dev)] := by simp [effects]
    refine ⟨?_, fun j => ?_⟩
    · rw [heff, Clients.run_snoc]
      exact slice_exec_congr ht.good (run_good hL _) hstate (o, dev)
    · rw [heff, issued_snoc, ← horder j]
      by_cases hij : i = j
      · subst hij
        simp [next, issued, hnone, ahead, Clients.byClient_append, Clients.byClient_cons_self]
      · simp [next, issued, hij, Clients.byClient_append, Clients.byClient_cons_ne hij]

end Step

/-! ### Runs -/

lemma explained_of_legal (hL : Good L) {as : List (Label ι)}
    (h : (lts env).Legal (start L) as) (k : LoggerSink) :
    Explains env L k as ((lts env).run (start L) as) := by
  have hboth := h.history (p := fun as s => Explains env L k as s ∧ Tidy s)
    ⟨⟨rfl, fun _ => rfl⟩, hL, by simp [start]⟩
    fun as a _ ih ha => ⟨explains_step hL ih.1 ih.2 ha, tidy_step ih.2 ha⟩
  exact hboth.1

/-- Two threads; the second message is first at the console. -/
def overtaken : List (Label Bool) :=
  let c := LogCall.plain 0 [] "a".toList .ealInfo
  let c' := LogCall.plain 0 [] "b".toList .ealInfo
  [.call true c, .call false c', .hand false .ealConsole c' Device.willing,
    .hand true .ealConsole c Device.willing, .skip true .ealSyslog c, .skip false .ealSyslog c',
    .skip false .ealFileSimple c', .finish false,
    .sinkCall false (.setMinLvl .ealConsole .ealError) Device.willing]

end Ealogger.Threads
