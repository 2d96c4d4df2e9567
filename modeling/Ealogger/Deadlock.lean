import Ealogger.Locking

/-!
The logger does not deadlock.

The mutexes inside a sink are taken in opposite orders by `set_msg_template` and by the
constructor, so that they cannot be ranked. What keeps them apart is that only one thread at a
time gets at an object: the one that holds the mutex of its key, or that has made it and not yet
stored it, or that has taken it out of the map. The mutexes of the keys, of the queue and of the
stop flag are never taken by a thread that holds something already.
-/

namespace Ealogger.Locking

open Locks

variable {ι : Type}

/-! ### What a thread may still have to do -/

/-- A thread that owns the objects `own` and holds `held` can go through the instructions: it
asks only for what it may have, and what it has it gives back, last taken first. -/
def Disciplined (t : Thread ι) : List Instr → List ℕ → List Mutex → Prop
  | [], _, held => held = []
  | .acquire m :: p, own, held => Permits own held m ∧ Disciplined t p own (m :: held)
  | .release (.inner o f) :: p, own, held =>
    ∃ held', held = .inner o f :: held' ∧ Disciplined t p own held'
  -- the objects go with the last mutex
  | .release (.key k) :: p, _, held => held = [.key k] ∧ Disciplined t p [] []
  | .release (.global x) :: p, _, held => held = [.global x] ∧ Disciplined t p [] []
  | .call k _ :: p, own, held => held = [.key k] ∧ Disciplined t p own held
  | .make k _ :: p, own, held => held = [.key k] ∧ Disciplined t p own held
  | .assign k o :: p, own, held => held = [.key k] ∧ o ∈ own ∧ Disciplined t p own held
  | .erase k :: p, own, held => held = [.key k] ∧ Disciplined t p own held
  | .drop _ :: p, own, held => t = .dtor ∧ held = [] ∧ .join ∉ p ∧ Disciplined t p own held
  | .join :: p, own, held => t = .dtor ∧ held = [] ∧ Disciplined t p own held
  | .exit :: p, _, held => t = .worker ∧ held = [] ∧ p = []

/-- Owning more does no harm. -/
lemma Disciplined.mono {t : Thread ι} {p : List Instr} {own own' : List ℕ} {held : List Mutex}
    (h : Disciplined t p own held) (hsub : own ⊆ own') : Disciplined t p own' held := by
  induction p generalizing held with
  | nil => exact h
  | cons a p ih =>
    cases a with
    | acquire m =>
      refine ⟨?_, ih h.2⟩
      cases m with
      | key k => exact h.1
      | global x => exact h.1
      | inner o f => exact ⟨hsub h.1.1, h.1.2⟩
    | release m =>
      cases m with
      | key k => exact h
      | global x => exact h
      | inner o f =>
        obtain ⟨held', rfl, hrest⟩ := h
        exact ⟨held', rfl, ih hrest⟩
    | call k f => exact ⟨h.1, ih h.2⟩
    | make k b => exact ⟨h.1, ih h.2⟩
    | assign k o => exact ⟨h.1, hsub h.2.1, ih h.2.2⟩
    | erase k => exact ⟨h.1, ih h.2⟩
    | drop k => exact ⟨h.1, h.2.1, h.2.2.1, ih h.2.2.2⟩
    | join => exact ⟨h.1, h.2.1, ih h.2.2⟩
    | exit => exact h

section Blocks

variable {t : Thread ι} {p : List Instr} {own : List ℕ} {held : List Mutex}

section Unfold

attribute [local simp] Disciplined

@[simp] lemma disciplined_inner (o : ℕ) (f : Field) (body : List Instr) :
    Disciplined t (lock (.inner o f) body ++ p) own held ↔
      (o ∈ own ∧ .inner o f ∉ held) ∧
        Disciplined t (body ++ .release (.inner o f) :: p) own (.inner o f :: held) := by
  simp [lock, Permits]

@[simp] lemma disciplined_release_inner (o : ℕ) (f : Field) :
    Disciplined t (.release (.inner o f) :: p) own (.inner o f :: held) ↔
      Disciplined t p own held := by
  simp

/-- With the mutex of a key the instructions in between act upon the map. -/
@[simp] lemma disciplined_key (k : LoggerSink) (body : List Instr) :
    Disciplined t (lock (.key k) body ++ p) own held ↔
      held = [] ∧ Disciplined t (body ++ .release (.key k) :: p) own [.key k] := by
  simp only [lock, Disciplined, Permits, List.cons_append, List.append_assoc, List.nil_append]
  exact and_congr_right fun h => by rw [h]

@[simp] lemma disciplined_global (x : Global) (body : List Instr) :
    Disciplined t (lock (.global x) body ++ p) own held ↔
      held = [] ∧ Disciplined t (body ++ .release (.global x) :: p) own [.global x] := by
  simp only [lock, Disciplined, Permits, List.cons_append, List.append_assoc, List.nil_append]
  exact and_congr_right fun h => by rw [h]

end Unfold

/-! #### On an object that the thread owns -/

section Object

variable {o : ℕ} (ho : o ∈ own) (hheld : ∀ f, .inner o f ∉ held) (hp : Disciplined t p own held)
include ho hheld hp

lemma disciplined_construct (enabled : Bool) (k : LoggerSink) :
    Disciplined t (construct o enabled k ++ p) own held := by
  cases k <;> cases enabled <;>
    simp [construct, SinkFile.new, SinkFile.openFile, Sink.new, Sink.getEnabled,
      Sink.fillConvPatterns, ho, hheld, hp]

lemma disciplined_destruct (k : LoggerSink) : Disciplined t (destruct o k ++ p) own held := by
  cases k <;> simp [destruct, SinkFile.closeFile, ho, hheld, hp]

lemma disciplined_body (k : LoggerSink) (f : Member) :
    Disciplined t (f.body k o ++ p) own held := by
  cases f with
  | setMsgTemplate => simp [Member.body, Sink.setMsgTemplate, Sink.fillConvPatterns, ho, hheld, hp]
  | setDatetimePattern => simp [Member.body, Sink.setDatetimePattern, ho, hheld, hp]
  | setEnabled b isOpen =>
    cases k <;> cases b <;> cases isOpen <;>
      simp [Member.body, Sink.setEnabled, configChanged, SinkFile.configChanged,
        SinkFile.closeFile, SinkFile.openFile, ho, hheld, hp]
  | setMinLvl => simp [Member.body, Sink.setMinLvl, ho, hheld, hp]
  | prepareLogMessage c =>
    have hwrite : Disciplined t (writeMessage o k ++ p) own held := by
      cases k <;> simp [writeMessage, SinkFile.writeMessage, ho, hheld, hp]
    cases c with
    | template datetime =>
      cases datetime <;>
        simp [Member.body, Sink.prepareLogMessage, Sink.getEnabled, ho, hheld, hwrite]
    | _ => simp [Member.body, Sink.prepareLogMessage, Sink.getEnabled, ho, hheld, hwrite, hp]

end Object

/-- An entry of the map goes, and the thread gets the object to destroy it. -/
lemma disciplined_entry (s : State ι) (k : LoggerSink) (hheld : ∀ o f, .inner o f ∉ held)
    (hp : Disciplined t p own held) :
    Disciplined t (s.expand (.erase k) ++ p) ((s.map k).toList ++ own) held := by
  cases hentry : s.map k with
  | none => simpa [State.expand, hentry] using hp
  | some o =>
    have hrest : Disciplined t p (o :: own) held := hp.mono (List.subset_cons_self o own)
    simpa [State.expand, hentry] using disciplined_destruct List.mem_cons_self (hheld o) hrest k

/-! #### From nothing held -/

lemma disciplined_internalLogRoutine (visits : List (LoggerSink × Course))
    (hp : Disciplined t p [] []) : Disciplined t (internalLogRoutine visits ++ p) [] [] := by
  induction visits with
  | nil => exact hp
  | cons v visits ih => simpa [internalLogRoutine, Disciplined] using ih

lemma disciplined_pop (waits : ℕ) (hp : Disciplined t p [] []) :
    Disciplined t (LogQueue.pop waits ++ p) [] [] := by
  have hwaits : Disciplined t ((List.replicate waits
      [Instr.release (.global .mtx), .acquire (.global .mtx)]).flatten ++
        .release (.global .mtx) :: p) [] [.global .mtx] := by
    induction waits with
    | zero => exact ⟨rfl, hp⟩
    | succ n ih => exact ⟨rfl, rfl, ih⟩
  exact (disciplined_global ..).mpr ⟨rfl, hwaits⟩

lemma disciplined_polls (polls : ℕ) (hp : Disciplined t p [] []) :
    Disciplined t ((List.replicate polls LogQueue.empty).flatten ++ p) [] [] := by
  induction polls with
  | zero => exact hp
  | succ n ih => simpa [List.replicate_succ, LogQueue.empty, Disciplined] using ih

end Blocks

/-! #### The programs of the threads -/

lemma disciplined_operation (t : Thread ι) (async : Bool) (visits : List (LoggerSink × Course))
    (isOpen : Bool) (o : Op) : Disciplined t (operation async visits isOpen o) [] [] := by
  cases o with
  | writeLog =>
    cases async with
    | true => simp [operation, writeLog, LogQueue.push, lock, Disciplined, Permits]
    | false =>
      have hroutine := disciplined_internalLogRoutine (t := t) (p := []) visits rfl
      simpa [operation, writeLog] using hroutine
  | _ =>
    simp [operation, initSink, atSink, discardSink, isInitialized, LogQueue.empty, lock,
      Disciplined, Permits]

lemma disciplined_turn (stop : Bool) (waits : ℕ) (visits : List (LoggerSink × Course)) :
    Disciplined (.worker : Thread ι) (turn stop waits visits) [] [] := by
  have hnil : Disciplined (.worker : Thread ι) [] [] [] := rfl
  have hbody := disciplined_pop waits (disciplined_internalLogRoutine visits hnil)
  cases stop with
  | true => simp [turn, getLoggerThreadStop, Disciplined]
  | false => simpa [turn, getLoggerThreadStop, Disciplined] using hbody

lemma disciplined_drops (ks : List LoggerSink) :
    Disciplined (.dtor : Thread ι) (ks.map .drop) [] [] := by
  induction ks with
  | nil => rfl
  | cons k ks ih => exact ⟨rfl, rfl, by simp, ih⟩

lemma disciplined_destroy (async : Bool) (polls : ℕ) :
    Disciplined (.dtor : Thread ι) (destroy async polls) [] [] := by
  cases async with
  | false => exact disciplined_drops sinkKeys
  | true =>
    have hjoin : Disciplined (.dtor : Thread ι) (.join :: sinkKeys.map .drop) [] [] :=
      ⟨rfl, rfl, disciplined_drops sinkKeys⟩
    simp only [destroy, if_true, List.append_assoc]
    refine disciplined_polls polls ?_
    simpa [setLoggerThreadStop, writeLog, LogQueue.push, Disciplined] using hjoin

/-! ### The invariant -/

/-- What holds of a state that a run leads to, with the objects that each thread owns. -/
structure Orderly (async : Bool) (own : Thread ι → List ℕ) (s : State ι) : Prop where
  separated : Separated s.held own s.map s.fresh
  disciplined : ∀ t, Disciplined t (s.todo t) (own t) (s.held t)
  quiet : s.closing = true → ∀ i, s.todo (.client i) = []
  idle : s.closing = false → s.todo .dtor = []
  joins : s.closing = true → s.exited = false → .join ∈ s.todo .dtor
  ended : s.exited = true → s.todo .worker = []
  sync : async = false → s.exited = true

lemma orderly_start (async : Bool) : Orderly async (fun _ => []) (start ι async) where
  separated := separated_start
  disciplined _ := rfl
  quiet h _ := rfl
  idle _ := rfl
  joins h := Bool.noConfusion h
  ended _ := rfl
  sync h := by simp [start, h]

/-- An entry is dropped when the clients have stopped and the background thread has been joined. -/
lemma Orderly.alone {async : Bool} {own : Thread ι → List ℕ} {s : State ι}
    (h : Orderly async own s) {t : Thread ι} {k : LoggerSink} {rest : List Instr}
    (htodo : s.todo t = .drop k :: rest) {t' : Thread ι} (hne : t' ≠ t) : s.held t' = [] := by
  have hd := h.disciplined t
  rw [htodo] at hd
  obtain ⟨rfl, -, hjoin, -⟩ := hd
  have hclosing : s.closing = true := by
    by_contra hnot
    simp [h.idle (by simpa using hnot)] at htodo
  have hidle : s.todo t' = [] := by
    cases t' with
    | client i => exact h.quiet hclosing i
    | worker =>
      refine h.ended ?_
      by_contra hnot
      simpa [htodo, hjoin] using h.joins hclosing (by simpa using hnot)
    | dtor => exact absurd rfl hne
  simpa [hidle, Disciplined] using h.disciplined t'

variable [DecidableEq ι]

/-! #### One step of a thread -/

/-- The thread can go on after the instruction, with the objects that it owns then; and nothing
has changed for the others. -/
def GoesOn (s : State ι) (own : Thread ι → List ℕ) (t : Thread ι) (a : Instr)
    (rest : List Instr) : Prop :=
  ∃ own', Separated (s.exec t a).held own' (s.exec t a).map (s.exec t a).fresh ∧
    Disciplined t (s.expand a ++ rest) (own' t) ((s.exec t a).held t) ∧
    ∀ t', t' ≠ t → own' t' = own t' ∧ (s.exec t a).held t' = s.held t'

section GoesOn

variable {s : State ι} {own : Thread ι → List ℕ} {t : Thread ι} {rest : List Instr}
  (hsep : Separated s.held own s.map s.fresh)
include hsep

lemma goesOn_acquire {m : Mutex} (hd : Disciplined t (.acquire m :: rest) (own t) (s.held t))
    (hready : s.Ready (.acquire m)) : GoesOn s own t (.acquire m) rest := by
  refine ⟨own, hsep.acquire hready hd.1, ?_, fun t' hne => ⟨rfl, Function.update_of_ne hne ..⟩⟩
  simpa [State.exec, State.expand] using hd.2

lemma goesOn_releaseInner {o : ℕ} {f : Field} {held' : List Mutex}
    (hheld : s.held t = .inner o f :: held') (hrest : Disciplined t rest (own t) held') :
    GoesOn s own t (.release (.inner o f)) rest := by
  have herase : (s.held t).erase (.inner o f) = held' := by simp [hheld]
  refine ⟨own, ?_, ?_, fun t' hne => ⟨rfl, Function.update_of_ne hne ..⟩⟩
  · simpa [State.exec, herase] using hsep.releaseInner hheld
  · simpa [State.exec, State.expand, herase] using hrest

lemma goesOn_releaseLast {m : Mutex} (hheld : s.held t = [m]) (hrest : Disciplined t rest [] []) :
    GoesOn s own t (.release m) rest := by
  have herase : (s.held t).erase m = [] := by simp [hheld]
  refine ⟨Function.update own t [], ?_, ?_,
    fun t' hne => ⟨Function.update_of_ne hne .., Function.update_of_ne hne ..⟩⟩
  · simpa [State.exec, herase] using hsep.releaseLast t
  · simpa [State.exec, State.expand, herase] using hrest

/-- The mutex of the key gives the thread the object. -/
lemma goesOn_call {k : LoggerSink} {f : Member} (hheld : s.held t = [.key k])
    (hrest : Disciplined t rest (own t) (s.held t)) : GoesOn s own t (.call k f) rest := by
  cases ho : s.map k with
  | none =>
    refine ⟨own, hsep, ?_, fun t' _ => ⟨rfl, rfl⟩⟩
    simpa [State.exec, State.expand, ho] using hrest
  | some o =>
    refine ⟨Function.update own t (o :: own t), hsep.fetch (by simp [hheld]) ho, ?_,
      fun t' hne => ⟨Function.update_of_ne hne .., rfl⟩⟩
    simp only [State.exec, State.expand, ho, Function.update_self]
    exact disciplined_body List.mem_cons_self (by simp [hheld])
      (hrest.mono (List.subset_cons_self o _)) k f

lemma goesOn_make {k : LoggerSink} {enabled : Bool} (hheld : s.held t = [.key k])
    (hrest : Disciplined t rest (own t) (s.held t)) : GoesOn s own t (.make k enabled) rest := by
  have hassign : Disciplined t (.assign k s.fresh :: rest) (s.fresh :: own t) (s.held t) :=
    ⟨hheld, List.mem_cons_self, hrest.mono (List.subset_cons_self s.fresh _)⟩
  refine ⟨Function.update own t (s.fresh :: own t), hsep.make t, ?_,
    fun t' hne => ⟨Function.update_of_ne hne .., rfl⟩⟩
  simp only [State.exec, State.expand, Function.update_self, List.append_assoc]
  exact disciplined_construct List.mem_cons_self (by simp [hheld]) hassign enabled k

/-- An entry goes that no other thread can get at. -/
lemma goesOn_erase {k : LoggerSink} (hk : ∀ t', t' ≠ t → .key k ∉ s.held t')
    (hinner : ∀ o f, .inner o f ∉ s.held t) (hrest : Disciplined t rest (own t) (s.held t)) :
    GoesOn s own t (.erase k) rest := by
  refine ⟨_, hsep.remove hk, ?_, fun t' hne => ⟨Function.update_of_ne hne .., rfl⟩⟩
  simpa [State.exec] using disciplined_entry s k hinner hrest

lemma goesOn_assign {k : LoggerSink} {o : ℕ} (hheld : s.held t = [.key k]) (ho : o ∈ own t)
    (hrest : Disciplined t rest (own t) (s.held t)) : GoesOn s own t (.assign k o) rest := by
  have hkey : .key k ∈ s.held t := by simp [hheld]
  -- the object that was there goes out before the new one comes in
  have hremove := hsep.remove fun t' hne hk => hne (hsep.exclusive t' t _ hk hkey)
  have hown : o ∈ Function.update own t ((s.map k).toList ++ own t) t := by simp [ho]
  have hinsert := hremove.insert hown hheld (Function.update_self ..)
  refine ⟨_, by simpa [State.exec] using hinsert, ?_,
    fun t' hne => ⟨Function.update_of_ne hne .., rfl⟩⟩
  simpa [State.exec] using disciplined_entry s k (by simp [hheld]) hrest

/-- An entry is dropped when no other thread holds a mutex. -/
lemma goesOn_of_disciplined {a : Instr} (hd : Disciplined t (a :: rest) (own t) (s.held t))
    (hready : s.Ready a) (halone : ∀ k, a = .drop k → ∀ t', t' ≠ t → s.held t' = []) :
    GoesOn s own t a rest := by
  cases a with
  | acquire m => exact goesOn_acquire hsep hd hready
  | release m =>
    cases m with
    | inner o f =>
      obtain ⟨held', hheld, hrest⟩ := hd
      exact goesOn_releaseInner hsep hheld hrest
    | key k => exact goesOn_releaseLast hsep hd.1 hd.2
    | global x => exact goesOn_releaseLast hsep hd.1 hd.2
  | call k f => exact goesOn_call hsep hd.1 hd.2
  | make k enabled => exact goesOn_make hsep hd.1 hd.2
  | assign k o => exact goesOn_assign hsep hd.1 hd.2.1 hd.2.2
  | erase k =>
    obtain ⟨hheld, hrest⟩ := hd
    refine goesOn_erase hsep (fun t' hne hk => ?_) (by simp [hheld]) hrest
    exact hne (hsep.exclusive t' t _ hk (by simp [hheld]))
  | drop k =>
    obtain ⟨-, hheld, -, hrest⟩ := hd
    -- an entry is dropped as it is erased
    have herase := goesOn_erase hsep (k := k) (fun t' hne => by simp [halone k rfl t' hne])
      (by simp [hheld]) hrest
    exact herase
  | join =>
    refine ⟨own, hsep, ?_, fun t' _ => ⟨rfl, rfl⟩⟩
    simpa [State.exec, State.expand] using hd.2.2
  | exit =>
    obtain ⟨-, hheld, rfl⟩ := hd
    exact ⟨own, hsep, by simpa [State.expand, State.exec, Disciplined] using hheld,
      fun t' _ => ⟨rfl, rfl⟩⟩

end GoesOn

/-! #### Runs -/

/-- A thread that has nothing to do begins a program. -/
lemma Orderly.begins {async : Bool} {own : Thread ι → List ℕ} {s : State ι}
    (h : Orderly async own s) {t : Thread ι} {p : List Instr} (hidle : s.todo t = [])
    (hp : Disciplined t p [] []) (t' : Thread ι) :
    Disciplined t' (Function.update s.todo t p t') (own t') (s.held t') := by
  by_cases ht : t' = t
  · subst ht
    have hheld : s.held t' = [] := by simpa [hidle, Disciplined] using h.disciplined t'
    rw [Function.update_self, hheld]
    exact hp.mono (List.nil_subset _)
  · rw [Function.update_of_ne ht]
    exact h.disciplined t'

/-- The destructor does not get past `join` while the background thread runs. -/
lemma Orderly.still_joins {async : Bool} {own : Thread ι → List ℕ} {s : State ι}
    (h : Orderly async own s) {t : Thread ι} {a : Instr} {rest : List Instr}
    (htodo : s.todo t = a :: rest) (hready : s.Ready a) (hclosing : s.closing = true)
    (hexited : (s.exec t a).exited = false) :
    .join ∈ Function.update s.todo t (s.expand a ++ rest) .dtor := by
  have hrunning : s.exited = false := by
    by_contra hnot
    have hafter := (State.exec_exited t s a).mpr (Or.inl (by simpa using hnot))
    simp [hafter] at hexited
  have hjoin := h.joins hclosing hrunning
  by_cases ht : .dtor = t
  · subst ht
    have hne : .join ≠ a := by
      rintro rfl
      exact Bool.noConfusion (hrunning.symm.trans hready)
    rw [htodo] at hjoin
    simpa using Or.inr ((List.mem_cons.mp hjoin).resolve_left hne)
  · simpa [ht] using hjoin

/-- One step of a thread keeps the order. -/
lemma Orderly.step {async : Bool} {own : Thread ι → List ℕ} {s : State ι}
    (h : Orderly async own s) {t : Thread ι} {a : Instr} {rest : List Instr}
    (htodo : s.todo t = a :: rest) (hready : s.Ready a) :
    ∃ own', Orderly async own'
      { s.exec t a with todo := Function.update s.todo t (s.expand a ++ rest) } := by
  have hd := h.disciplined t
  rw [htodo] at hd
  obtain ⟨own', hsep, hself, hothers⟩ := goesOn_of_disciplined h.separated hd hready
    fun k hk t' hne => h.alone (hk ▸ htodo) hne
  -- who has nothing to do does not make the step
  have hstill : ∀ t', s.todo t' = [] →
      Function.update s.todo t (s.expand a ++ rest) t' = [] := by
    intro t' ht'
    have hne : t' ≠ t := by
      rintro rfl
      simp [ht'] at htodo
    rw [Function.update_of_ne hne, ht']
  refine ⟨own', hsep, fun t' => ?_, fun hc i => ?_, fun hc => ?_, fun hc he => ?_, fun he => ?_,
    fun hs => ?_⟩
  · by_cases ht : t' = t
    · subst ht
      simpa using hself
    · obtain ⟨hown, hheld⟩ := hothers t' ht
      simp only [Function.update_of_ne ht, hown, hheld]
      exact h.disciplined t'
  · exact hstill _ (h.quiet (by simpa using hc) i)
  · exact hstill _ (h.idle (by simpa using hc))
  · exact h.still_joins htodo hready (by simpa using hc) he
  · rcases (State.exec_exited t s a).mp he with hexited | rfl
    · exact hstill _ (h.ended hexited)
    · obtain ⟨rfl, -, rfl⟩ := hd
      simp [State.expand]
  · exact (State.exec_exited t s a).mpr (Or.inl (h.sync hs))

/-- One step of the system. -/
lemma Orderly.next {async : Bool} {own : Thread ι → List ℕ} {s : State ι}
    (h : Orderly async own s) {a : Label ι} (ha : s.enabled a) :
    ∃ own', Orderly async own' (s.next async a) := by
  cases a with
  | call i o visits isOpen =>
    obtain ⟨hopen, hidle⟩ := ha
    refine ⟨own, h.separated, h.begins hidle (disciplined_operation _ async visits isOpen o),
      fun hc => ?_, fun hc => ?_, fun hc => ?_, fun he => ?_, h.sync⟩
    · exact Bool.noConfusion (hopen.symm.trans hc)
    · simpa [State.next] using h.idle hc
    · exact Bool.noConfusion (hopen.symm.trans hc)
    · simpa [State.next] using h.ended he
  | turn stop waits visits =>
    obtain ⟨hrunning, hidle⟩ := ha
    refine ⟨own, h.separated, h.begins hidle (disciplined_turn stop waits visits),
      fun hc i => ?_, fun hc => ?_, fun hc he => ?_, fun he => ?_, h.sync⟩
    · simpa [State.next] using h.quiet hc i
    · simpa [State.next] using h.idle hc
    · simpa [State.next] using h.joins hc he
    · exact Bool.noConfusion (hrunning.symm.trans he)
  | destroy polls =>
    obtain ⟨hopen, hquiet⟩ := ha
    refine ⟨own, h.separated, h.begins (h.idle hopen) (disciplined_destroy async polls),
      fun _ i => ?_, fun hc => ?_, fun _ he => ?_, fun he => ?_, h.sync⟩
    · simpa [State.next] using hquiet i
    · exact Bool.noConfusion hc
    · -- an asynchronous logger is joined
      have hasync : async = true := by
        by_contra hnot
        exact Bool.noConfusion (he.symm.trans (h.sync (by simpa using hnot)))
      simp [State.next, destroy, hasync]
    · simpa [State.next] using h.ended he
  | step t =>
    obtain ⟨a, rest, htodo, hready⟩ := ha
    simpa only [State.next, htodo] using h.step htodo hready

/-- No run leads to a state in which each of some threads waits for a mutex that one of them
holds. -/
theorem deadlock_free (async : Bool) {s : State ι}
    (h : (threads ι async).Reachable (start ι async) s) (S : Set (Thread ι)) :
    ¬ Deadlocked s.held s.wants S := by
  obtain ⟨as, hlegal, rfl⟩ := h
  obtain ⟨own, hfinal⟩ := hlegal.invariant (p := fun s => ∃ own, Orderly async own s)
    ⟨_, orderly_start async⟩ fun a s hs ha => hs.elim fun own hs => hs.next ha
  refine hfinal.separated.not_deadlocked (fun t m hm => ?_) S
  obtain ⟨rest, htodo⟩ := State.wants_some hm
  have hd := hfinal.disciplined t
  rw [htodo] at hd
  exact hd.1

/-- A sink is under construction and a second client waits to set its template. -/
def contended : List (Label Bool) :=
  [.call true (.initConsoleSink true .ealDebug [] []) [] false, .step (.client true),
    .step (.client true), .step (.client true),
    .call false (.setMsgTemplate .ealConsole []) [] false]

example : ((threads Bool true).run (start Bool true) contended).wants (.client false) =
    some (.key .ealConsole) := rfl

theorem deadlock_free_contended :
    ¬ Deadlocked ((threads Bool true).run (start Bool true) contended).held
      ((threads Bool true).run (start Bool true) contended).wants Set.univ :=
  deadlock_free true ⟨contended, by
    simp [contended, threads, State.enabled, State.next, State.Ready, State.exec, State.expand,
      mem_update, start, operation, initSink, construct, Sink.new, Sink.fillConvPatterns, lock],
    rfl⟩ Set.univ

end Ealogger.Locking
