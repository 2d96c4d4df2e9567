import Ealogger.Deadlock

/-!
Nobody waits for long inside the logger.

A thread that holds a mutex never has to wait for another one: it gets to the point where it
holds nothing by itself, in a few steps. So whoever waits, waits for a thread that is on its way
out, and every call that has been begun can be brought to its end.
-/

namespace Ealogger.Locking

open Locks

variable {ι : Type}

/-! ### How long a thread holds something -/

/-- An instruction and all that it leads to. -/
def weight : Instr → ℕ
  | .call _ _ => 13
  | .make _ _ => 14
  | .assign _ _ | .erase _ | .drop _ => 3
  | _ => 1

/-- The number of mutexes that are held after an instruction. -/
def after (n : ℕ) : Instr → ℕ
  | .acquire _ => n + 1
  | .release _ => n - 1
  | _ => n

/-- The steps of a thread that holds `n` mutexes until it holds none. -/
def inside : ℕ → List Instr → ℕ
  | _, [] => 0
  | 0, _ => 0
  | n + 1, a :: p => weight a + inside (after (n + 1) a) p

/-- Whenever the thread takes a first mutex, it does not take long until it holds none. -/
def Brief : ℕ → List Instr → Prop
  | _, [] => True
  | 0, a :: p => inside (after 0 a) p ≤ 15 ∧ Brief (after 0 a) p
  | n + 1, a :: p => Brief (after (n + 1) a) p

section Blocks

attribute [local simp] inside Brief weight after

variable {n : ℕ} {p : List Instr}

@[simp] lemma inside_zero (p : List Instr) : inside 0 p = 0 := by
  cases p <;> rfl

/-! #### On an object -/

lemma body_brief (k : LoggerSink) (f : Member) (o : ℕ) :
    inside (n + 1) (f.body k o ++ p) ≤ 12 + inside (n + 1) p ∧
      (Brief (n + 1) (f.body k o ++ p) ↔ Brief (n + 1) p) := by
  cases f with
  | prepareLogMessage c =>
    cases c with
    | template datetime =>
      cases datetime <;> cases k <;>
        simp [Member.body, Sink.prepareLogMessage, Sink.getEnabled, writeMessage,
          SinkFile.writeMessage, lock] <;> omega
    | _ =>
      cases k <;>
        simp [Member.body, Sink.prepareLogMessage, Sink.getEnabled, writeMessage,
          SinkFile.writeMessage, lock] <;> omega
  | setEnabled b isOpen =>
    cases k <;> cases b <;> cases isOpen <;>
      simp [Member.body, Sink.setEnabled, configChanged, SinkFile.configChanged,
        SinkFile.closeFile, SinkFile.openFile, lock] <;> omega
  | _ =>
    simp [Member.body, Sink.setMsgTemplate, Sink.fillConvPatterns, Sink.setDatetimePattern,
      Sink.setMinLvl, lock]
    omega

lemma construct_brief (k : LoggerSink) (enabled : Bool) (o : ℕ) :
    inside (n + 1) (construct o enabled k ++ p) ≤ 10 + inside (n + 1) p ∧
      (Brief (n + 1) (construct o enabled k ++ p) ↔ Brief (n + 1) p) := by
  have hnew : inside (n + 1) (Sink.new o ++ p) = 4 + inside (n + 1) p ∧
      (Brief (n + 1) (Sink.new o ++ p) ↔ Brief (n + 1) p) := by
    simp [Sink.new, Sink.fillConvPatterns, lock]
    omega
  cases k with
  | ealFileSimple =>
    cases enabled
    · simp [construct, SinkFile.new, Sink.new, Sink.getEnabled, Sink.fillConvPatterns, lock]
      omega
    · simp [construct, SinkFile.new, SinkFile.openFile, Sink.new, Sink.getEnabled,
        Sink.fillConvPatterns, lock]
      omega
  | _ => exact ⟨hnew.1.le.trans (by omega), hnew.2⟩

lemma destruct_brief (k : LoggerSink) (o : ℕ) :
    inside n (destruct o k ++ p) ≤ 2 + inside n p ∧
      (Brief n (destruct o k ++ p) ↔ Brief n p) := by
  cases n <;> cases k <;> simp [destruct, SinkFile.closeFile, lock]
  omega

/-! #### From nothing held -/

lemma internalLogRoutine_brief (visits : List (LoggerSink × Course)) (hp : Brief 0 p) :
    Brief 0 (internalLogRoutine visits ++ p) := by
  induction visits with
  | nil => exact hp
  | cons v visits ih => simpa [internalLogRoutine, lock] using ih

lemma pop_brief (waits : ℕ) (hp : Brief 0 p) : Brief 0 (LogQueue.pop waits ++ p) := by
  have hwaits : inside 1 ((List.replicate waits
        [Instr.release (.global .mtx), .acquire (.global .mtx)]).flatten ++
          .release (.global .mtx) :: p) = 1 ∧
      Brief 1 ((List.replicate waits
        [Instr.release (.global .mtx), .acquire (.global .mtx)]).flatten ++
          .release (.global .mtx) :: p) := by
    induction waits with
    | zero => simpa using hp
    | succ n ih => simpa [List.replicate_succ, ih.1] using ih.2
  obtain ⟨hinside, hbrief⟩ := hwaits
  simp only [LogQueue.pop, lock, List.cons_append, List.append_assoc, List.nil_append, Brief, after]
  exact ⟨Nat.le_trans (Nat.le_of_eq hinside) (by omega), hbrief⟩

lemma polls_brief (polls : ℕ) (hp : Brief 0 p) :
    Brief 0 ((List.replicate polls LogQueue.empty).flatten ++ p) := by
  induction polls with
  | zero => exact hp
  | succ n ih => simpa [List.replicate_succ, LogQueue.empty, lock] using ih

/-! #### The programs of the threads -/

lemma operation_brief (async : Bool) (visits : List (LoggerSink × Course)) (isOpen : Bool)
    (o : Op) : Brief 0 (operation async visits isOpen o) := by
  cases o with
  | writeLog =>
    cases async with
    | true => simp [operation, writeLog, LogQueue.push, lock]
    | false =>
      have hroutine := internalLogRoutine_brief (p := []) visits trivial
      simpa [operation, writeLog] using hroutine
  | _ => simp [operation, initSink, atSink, discardSink, isInitialized, LogQueue.empty, lock]

lemma turn_brief (stop : Bool) (waits : ℕ) (visits : List (LoggerSink × Course)) :
    Brief 0 (turn stop waits visits) := by
  have hbody := pop_brief waits (internalLogRoutine_brief (p := []) visits trivial)
  cases stop with
  | true => simp [turn, getLoggerThreadStop, lock]
  | false => simpa [turn, getLoggerThreadStop, lock] using hbody

lemma destroy_brief (async : Bool) (polls : ℕ) : Brief 0 (destroy async polls) := by
  have hdrops : ∀ ks : List LoggerSink, Brief 0 (ks.map .drop) := by
    intro ks
    induction ks with
    | nil => trivial
    | cons k ks ih => simpa using ih
  cases async with
  | false => exact hdrops sinkKeys
  | true =>
    simp only [destroy, if_true, List.append_assoc]
    refine polls_brief polls ?_
    simpa [setLoggerThreadStop, writeLog, LogQueue.push, lock] using hdrops sinkKeys

end Blocks

/-! ### The invariant -/

variable [DecidableEq ι]

/-- What each thread has still to do before it holds nothing, now and later. -/
def Quick (s : State ι) : Prop :=
  ∀ t, inside (s.held t).length (s.todo t) ≤ 15 ∧ Brief (s.held t).length (s.todo t)

omit [DecidableEq ι] in
/-- What an instruction leads to is counted with it. -/
lemma inside_expand (s : State ι) (n : ℕ) (a : Instr) (rest : List Instr) :
    inside (after (n + 1) a) (s.expand a ++ rest) + 1 ≤ inside (n + 1) (a :: rest) ∧
      (Brief (n + 1) (a :: rest) → Brief (after (n + 1) a) (s.expand a ++ rest)) := by
  have hentry : ∀ k, inside (n + 1) (s.expand (.erase k) ++ rest) ≤ 2 + inside (n + 1) rest ∧
      (Brief (n + 1) rest → Brief (n + 1) (s.expand (.erase k) ++ rest)) := by
    intro k
    cases ho : s.map k with
    | none => simp [State.expand, ho]
    | some o =>
      obtain ⟨hinside, hbrief⟩ := destruct_brief (n := n + 1) (p := rest) k o
      simpa [State.expand, ho] using ⟨hinside, hbrief.mpr⟩
  cases a with
  | call k f =>
    cases ho : s.map k with
    | none =>
      simp only [State.expand, ho, List.nil_append, inside, Brief, weight, after]
      exact ⟨by omega, id⟩
    | some o =>
      obtain ⟨hinside, hbrief⟩ := body_brief (n := n) (p := rest) k f o
      simp only [State.expand, ho, inside, Brief, weight, after]
      exact ⟨by omega, hbrief.mpr⟩
  | make k enabled =>
    obtain ⟨hinside, hbrief⟩ :=
      construct_brief (n := n) (p := .assign k s.fresh :: rest) k enabled s.fresh
    simp only [inside, Brief, weight, after] at hinside hbrief
    simp only [State.expand, List.append_assoc, List.cons_append, List.nil_append, inside, Brief,
      weight, after]
    exact ⟨by omega, hbrief.mpr⟩
  | assign k o =>
    obtain ⟨hinside, hbrief⟩ := hentry k
    simp only [State.expand_assign, inside, Brief, weight, after]
    exact ⟨by omega, hbrief⟩
  | erase k =>
    obtain ⟨hinside, hbrief⟩ := hentry k
    simp only [inside, Brief, weight, after]
    exact ⟨by omega, hbrief⟩
  | drop k =>
    obtain ⟨hinside, hbrief⟩ := hentry k
    simp only [State.expand_drop, inside, Brief, weight, after]
    exact ⟨by omega, hbrief⟩
  | _ =>
    simp only [State.expand, List.nil_append, inside, Brief, weight]
    exact ⟨by omega, id⟩

lemma length_held_exec {s : State ι} {t : Thread ι} {a : Instr} {rest : List Instr}
    {own : List ℕ} (hd : Disciplined t (a :: rest) own (s.held t)) :
    ((s.exec t a).held t).length = after (s.held t).length a := by
  cases a with
  | release m =>
    cases m with
    | inner o f =>
      obtain ⟨held', hheld, -⟩ := hd
      simp [State.exec, after, hheld]
    | key k => simp [State.exec, after, hd.1]
    | global x => simp [State.exec, after, hd.1]
  | _ => simp [State.exec, after]

omit [DecidableEq ι] in
/-- A thread that releases a mutex has one. -/
lemma after_succ {t : Thread ι} {a : Instr} {rest : List Instr} {own : List ℕ}
    {held : List Mutex} (hd : Disciplined t (a :: rest) own held) :
    after (held.length + 1) a = after held.length a + 1 := by
  cases a with
  | release m =>
    cases m with
    | inner o f =>
      obtain ⟨held', rfl, -⟩ := hd
      rfl
    | key k => simp [after, hd.1]
    | global x => simp [after, hd.1]
  | _ => rfl

omit [DecidableEq ι] in
/-- A thread that holds nothing takes a mutex, drops an entry of the map, joins or exits. -/
lemma brief_expand_zero (s : State ι) {t : Thread ι} {a : Instr} {rest : List Instr}
    {own : List ℕ} (hd : Disciplined t (a :: rest) own []) (h : Brief 0 (a :: rest)) :
    inside (after 0 a) (s.expand a ++ rest) ≤ 15 ∧
      Brief (after 0 a) (s.expand a ++ rest) := by
  obtain ⟨hinside, hbrief⟩ := h
  cases a with
  | acquire m => exact ⟨hinside, hbrief⟩
  | drop k =>
    cases ho : s.map k with
    | none => simpa [State.expand, ho, after] using hbrief
    | some o =>
      have hdestruct := (destruct_brief (n := 0) (p := rest) k o).2.mpr hbrief
      simpa [State.expand, ho, after] using hdestruct
  | join => exact ⟨hinside, hbrief⟩
  | exit => exact ⟨hinside, hbrief⟩
  | release m => cases m <;> simp [Disciplined] at hd
  | _ => simp [Disciplined] at hd

/-- One step of a thread. -/
lemma Quick.step {s : State ι} (h : Quick s) {t : Thread ι} {a : Instr} {rest : List Instr}
    (htodo : s.todo t = a :: rest) {own : List ℕ}
    (hd : Disciplined t (a :: rest) own (s.held t)) (hothers : ∀ t', t' ≠ t →
      (s.exec t a).held t' = s.held t') :
    Quick { s.exec t a with todo := Function.update s.todo t (s.expand a ++ rest) } := by
  intro t'
  by_cases ht : t' = t
  · subst ht
    obtain ⟨hinside, hbrief⟩ := h t'
    rw [htodo] at hinside hbrief
    simp only [Function.update_self, length_held_exec hd]
    cases hheld : s.held t' with
    | nil =>
      rw [hheld] at hd hbrief
      exact brief_expand_zero s hd hbrief
    | cons m held =>
      rw [hheld] at hinside hbrief
      obtain ⟨hless, hlater⟩ := inside_expand s held.length a rest
      exact ⟨by simp only [List.length_cons] at hinside ⊢; omega, hlater hbrief⟩
  · simp only [Function.update_of_ne ht, hothers t' ht]
    exact h t'

structure Fine (async : Bool) (s : State ι) : Prop where
  orderly : ∃ own, Orderly async own s
  quick : Quick s

lemma Fine.begins {async : Bool} {s : State ι} (h : Fine async s) {t : Thread ι}
    (hidle : s.todo t = []) {p : List Instr} (hp : Brief 0 p) (t' : Thread ι) :
    inside (s.held t').length (Function.update s.todo t p t') ≤ 15 ∧
      Brief (s.held t').length (Function.update s.todo t p t') := by
  by_cases ht : t' = t
  · subst ht
    obtain ⟨own, horderly⟩ := h.orderly
    have hheld : s.held t' = [] := by simpa [hidle, Disciplined] using horderly.disciplined t'
    simp [hheld, hp]
  · rw [Function.update_of_ne ht]
    exact h.quick t'

lemma Fine.next {async : Bool} {s : State ι} (h : Fine async s) {a : Label ι}
    (ha : s.enabled a) : Fine async (s.next async a) := by
  obtain ⟨own, horderly⟩ := h.orderly
  refine ⟨horderly.next ha, ?_⟩
  cases a with
  | call i o visits isOpen => exact h.begins ha.2 (operation_brief async visits isOpen o)
  | turn stop waits visits => exact h.begins ha.2 (turn_brief stop waits visits)
  | destroy polls => exact h.begins (horderly.idle ha.1) (destroy_brief async polls)
  | step t =>
    obtain ⟨a, rest, htodo, hready⟩ := ha
    have hd := horderly.disciplined t
    rw [htodo] at hd
    obtain ⟨own', -, -, hothers⟩ := goesOn_of_disciplined horderly.separated hd hready
      fun k hk t' hne => horderly.alone (hk ▸ htodo) hne
    simpa only [State.next, htodo] using
      h.quick.step htodo hd fun t' hne => (hothers t' hne).2

lemma fine_of_legal {async : Bool} {s : State ι} (h : Fine async s) {as : List (Label ι)}
    (has : (threads ι async).Legal s as) : Fine async ((threads ι async).run s as) :=
  has.invariant h fun _ _ hs ha => hs.next ha

omit [DecidableEq ι] in
lemma fine_start (async : Bool) : Fine async (start ι async) :=
  ⟨⟨_, orderly_start async⟩, fun _ => ⟨by simp [start], trivial⟩⟩

/-! ### A thread by itself -/

section Solo

variable {async : Bool} {s : State ι} {t : Thread ι}

omit [DecidableEq ι] in
/-- A mutex that is asked for by a thread that holds one is free. -/
lemma Orderly.free {own : Thread ι → List ℕ} (h : Orderly async own s) {m : Mutex}
    (hm : s.wants t = some m) (hheld : s.held t ≠ []) (t' : Thread ι) : m ∉ s.held t' := by
  obtain ⟨rest, htodo⟩ := State.wants_some hm
  have hd := h.disciplined t
  rw [htodo] at hd
  obtain ⟨hp, -⟩ := hd
  cases m with
  | key k => exact absurd hp hheld
  | global x => exact absurd hp hheld
  | inner o f =>
    intro hmem
    obtain rfl := h.separated.owned t t' o hp.1 (h.separated.inner t' o f hmem)
    exact hp.2 hmem

omit [DecidableEq ι] in
lemma Orderly.ready {own : Thread ι → List ℕ} (h : Orderly async own s) (hheld : s.held t ≠ []) :
    ∃ a rest, s.todo t = a :: rest ∧ s.Ready a := by
  have hd := h.disciplined t
  cases htodo : s.todo t with
  | nil =>
    rw [htodo] at hd
    exact absurd hd hheld
  | cons a rest =>
    refine ⟨a, rest, rfl, ?_⟩
    rw [htodo] at hd
    cases a with
    | acquire m => exact h.free (by simp [State.wants, htodo]) hheld
    | join => exact absurd hd.2.1 hheld
    | _ => trivial

/-- What one step of a thread does for it, and that the others do not notice. -/
lemma Fine.step (h : Fine async s) {a : Instr} {rest : List Instr} (htodo : s.todo t = a :: rest)
    (hready : s.Ready a) :
    (threads ι async).enabled (.step t) s ∧ Fine async (s.next async (.step t)) ∧
      (s.next async (.step t)).todo t = s.expand a ++ rest ∧
      ((s.next async (.step t)).held t).length = after (s.held t).length a ∧
      ∀ t', t' ≠ t → (s.next async (.step t)).todo t' = s.todo t' ∧
        (s.next async (.step t)).held t' = s.held t' := by
  have ha : State.enabled (.step t) s := ⟨a, rest, htodo, hready⟩
  obtain ⟨own, horderly⟩ := h.orderly
  have hd := horderly.disciplined t
  rw [htodo] at hd
  obtain ⟨own', -, -, hothers⟩ := goesOn_of_disciplined horderly.separated hd hready
    fun k hk t' hne => horderly.alone (hk ▸ htodo) hne
  refine ⟨ha, h.next ha, ?_, ?_, fun t' hne => ?_⟩
  · simp [State.next, htodo]
  · simpa [State.next, htodo] using length_held_exec hd
  · simpa [State.next, htodo, Function.update_of_ne hne] using (hothers t' hne).2

/-- The thread goes on by itself until it holds nothing. -/
lemma Fine.lets_go (h : Fine async s) (t : Thread ι) :
    ∃ n ≤ inside (s.held t).length (s.todo t),
      (threads ι async).Legal s (List.replicate n (.step t)) ∧
      ((threads ι async).run s (List.replicate n (.step t))).held t = [] ∧
      ∀ t', t' ≠ t →
        ((threads ι async).run s (List.replicate n (.step t))).todo t' = s.todo t' ∧
        ((threads ι async).run s (List.replicate n (.step t))).held t' = s.held t' := by
  -- by induction on the steps that are left
  induction hN : inside (s.held t).length (s.todo t) using Nat.strong_induction_on
    generalizing s with
  | _ N ih =>
    cases hheld : s.held t with
    | nil => exact ⟨0, Nat.zero_le _, trivial, hheld, fun t' _ => ⟨rfl, rfl⟩⟩
    | cons m held =>
      obtain ⟨own, horderly⟩ := h.orderly
      obtain ⟨a, rest, htodo, hready⟩ := horderly.ready (t := t) (by simp [hheld])
      obtain ⟨ha, hfine, htodo', hlength, hothers⟩ := h.step htodo hready
      have hless := (inside_expand s held.length a rest).1
      rw [hheld, htodo, List.length_cons] at hN
      rw [hheld, List.length_cons] at hlength
      have hsmaller : inside ((s.next async (.step t)).held t).length
          ((s.next async (.step t)).todo t) < N := by
        rw [htodo', hlength]
        omega
      obtain ⟨n, hn, hlegal, hempty, hrest⟩ := ih _ hsmaller hfine rfl
      refine ⟨n + 1, by omega, ⟨ha, hlegal⟩, hempty, fun t' hne => ?_⟩
      exact ⟨(hrest t' hne).1.trans (hothers t' hne).1, (hrest t' hne).2.trans (hothers t' hne).2⟩

/-- A mutex that a thread waits for is let go by the thread that holds it, and then it is
free. -/
lemma Fine.gets (h : Fine async s) {m : Mutex} (hm : s.wants t = some m) :
    ∃ ts : List (Thread ι), (threads ι async).Legal s (ts.map .step) ∧
      (∀ t', m ∉ ((threads ι async).run s (ts.map .step)).held t') ∧
      ((threads ι async).run s (ts.map .step)).todo t = s.todo t ∧
      ((threads ι async).run s (ts.map .step)).held t = s.held t := by
  by_cases hfree : ∀ t', m ∉ s.held t'
  · exact ⟨[], trivial, hfree, rfl, rfl⟩
  · obtain ⟨t', ht'⟩ : ∃ t', m ∈ s.held t' := by simpa using hfree
    obtain ⟨own, horderly⟩ := h.orderly
    -- the thread does not hold it itself
    have hne : t ≠ t' := by
      rintro rfl
      exact horderly.free hm (List.ne_nil_of_mem ht') t ht'
    obtain ⟨n, -, hlegal, hempty, hothers⟩ := h.lets_go t'
    refine ⟨List.replicate n t', by simpa using hlegal, fun u hu => ?_, ?_, ?_⟩
    · rw [List.map_replicate] at hu
      by_cases hut : u = t'
      · subst hut
        simp [hempty] at hu
      · rw [(hothers u hut).2] at hu
        exact hut (horderly.separated.exclusive u t' m hu ht')
    · rw [List.map_replicate]
      exact (hothers t hne).1
    · rw [List.map_replicate]
      exact (hothers t hne).2

/-- A client gets to the end of its call. -/
lemma Fine.completes (h : Fine async s) (i : ι) :
    ∃ ts : List (Thread ι), (threads ι async).Legal s (ts.map .step) ∧
      ((threads ι async).run s (ts.map .step)).todo (.client i) = [] := by
  -- one mutex more than there is, so that the whole program counts
  induction hN : inside ((s.held (.client i)).length + 1) (s.todo (.client i))
    using Nat.strong_induction_on generalizing s with
  | _ N ih =>
    cases htodo : s.todo (.client i) with
    | nil => exact ⟨[], trivial, htodo⟩
    | cons a rest =>
      obtain ⟨own, horderly⟩ := h.orderly
      have hd := horderly.disciplined (.client i)
      rw [htodo] at hd
      -- first whatever it takes to make the instruction possible
      have hready : ∃ ts : List (Thread ι), (threads ι async).Legal s (ts.map .step) ∧
          ((threads ι async).run s (ts.map .step)).Ready a ∧
          ((threads ι async).run s (ts.map .step)).todo (.client i) = a :: rest ∧
          ((threads ι async).run s (ts.map .step)).held (.client i) = s.held (.client i) := by
        cases a with
        | acquire m =>
          obtain ⟨ts, hlegal, hfree, htodo', hheld⟩ :=
            h.gets (t := .client i) (m := m) (by simp [State.wants, htodo])
          exact ⟨ts, hlegal, hfree, htodo'.trans htodo, hheld⟩
        | join => exact absurd hd.1 (by simp)
        | _ => exact ⟨[], trivial, trivial, htodo, rfl⟩
      obtain ⟨ts, hlegal, hready, htodo', hheld⟩ := hready
      obtain ⟨ha, hfine, hafter, hlength, -⟩ := (fine_of_legal h hlegal).step htodo' hready
      have hless := (inside_expand ((threads ι async).run s (ts.map .step))
        (s.held (.client i)).length a rest).1
      rw [hheld] at hlength
      rw [after_succ hd, ← hlength, ← hafter] at hless
      rw [htodo] at hN
      obtain ⟨us, hlegal', hdone⟩ := ih _ (by omega) hfine rfl
      refine ⟨ts ++ .client i :: us, ?_, ?_⟩
      · rw [List.map_append, Lts.legal_append]
        exact ⟨hlegal, ha, hlegal'⟩
      · rw [List.map_append, Lts.run_append]
        exact hdone

/-- What nobody who waits for a mutex has to fear: that the thread he waits for waits itself, that
it takes its time, and that he never gets to the end of his call. -/
structure Flows (async : Bool) (s : State ι) : Prop where
  uncontended : ∀ t m, s.wants t = some m → s.held t ≠ [] → ∀ t', m ∉ s.held t'
  lets_go : ∀ t, ∃ n ≤ 15, (threads ι async).Legal s (List.replicate n (.step t)) ∧
    ((threads ι async).run s (List.replicate n (.step t))).held t = []
  completes : ∀ i, ∃ ts : List (Thread ι), (threads ι async).Legal s (ts.map .step) ∧
    ((threads ι async).run s (ts.map .step)).todo (.client i) = []

end Solo

/-- **Nobody is held up.** In every state of every run, for any number of threads: a thread that
holds a mutex finds every other one that it asks for free, and it holds nothing any more after at
most fifteen steps of its own, in which no other thread has to take part; and every call that a
client has begun can be brought to its end without any new call being made. -/
theorem flows_of_reachable (async : Bool) {s : State ι}
    (h : (threads ι async).Reachable (start ι async) s) : Flows async s := by
  obtain ⟨as, hlegal, rfl⟩ := h
  have hfine := fine_of_legal (fine_start async) hlegal
  refine ⟨fun t m hm hheld => ?_, fun t => ?_, hfine.completes⟩
  · obtain ⟨own, horderly⟩ := hfine.orderly
    exact horderly.free hm hheld
  · obtain ⟨n, hn, hsolo, hempty, -⟩ := hfine.lets_go t
    exact ⟨n, hn.trans (hfine.quick t).1, hsolo, hempty⟩

/-- A client is about to set a template, and holds two mutexes; another one waits. -/
def setting : List (Label Bool) :=
  [.call true (.initConsoleSink true .ealDebug [] []) [] false] ++
    List.replicate 8 (.step (.client true)) ++
    [.call true (.setMsgTemplate .ealConsole []) [] false, .step (.client true),
      .step (.client true), .step (.client true),
      .call false (.setMinLvl .ealConsole .ealInfo) [] false]

theorem flows_of_reachable_setting :
    Flows true ((threads Bool true).run (start Bool true) setting) :=
  flows_of_reachable true ⟨setting, by
    simp [setting, threads, State.enabled, State.next, State.Ready, State.exec, State.expand,
      mem_update, start, operation, initSink, atSink, Member.body, construct, Sink.new,
      Sink.setMsgTemplate, Sink.fillConvPatterns, lock],
    rfl⟩

end Ealogger.Locking
