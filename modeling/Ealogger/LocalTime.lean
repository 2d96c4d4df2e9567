import Ealogger.Threads
import Ealogger.LoggerSpec

/-!
The `struct tm` that all calls of `localtime` share.

`format_time_to_string` passes what `localtime` returns on to `strftime`, and that is a pointer to
one static buffer. In between another thread may call `localtime` as well. The thread holds the
mutex of the sink it renders for, but threads that are at different sinks hold different ones.
In a synchronous `Logger` the dates are right all the same as long as only one sink shows dates;
in an asynchronous one all messages are rendered by one thread.
-/

namespace Ealogger.LocalTime

open LoggerSpec FileFailure
open Slice (touches)

/-! ### One message at one sink -/

/-- The message gets as far as a call of `localtime`. -/
def asksTime (s : Sink) (m : LogMessage) : Bool :=
  s.accepts m && m.logType == .default && s.vecConvPatterns.any fun cp => cp.ptype == .dt

/-- Whatever time is asked for, the pointer leads to `timeinfo`. -/
def through (env : Env) (timeinfo : Tm) : Env :=
  { env with localtime := fun t => (env.localtime t).map fun _ => timeinfo }

section Render

variable {env : Env} {timeinfo : Tm}

lemma formatTimeToString_through {t : Int}
    (h : ∀ tm, env.localtime t = some tm → timeinfo = tm) (p : Str) :
    formatTimeToString (through env timeinfo) t p = formatTimeToString env t p := by
  unfold formatTimeToString
  cases ht : env.localtime t with
  | none => simp [through, ht]
  | some tm =>
    obtain rfl := h tm ht
    simp only [through, ht, Option.map_some]
    rfl

/-- If time is asked for and the buffer holds the right one, the message is rendered as it
should be. -/
lemma prepareLogMessage_through {s : Sink} {m : LogMessage}
    (h : asksTime s m = true → ∀ tm, env.localtime m.t = some tm → timeinfo = tm) :
    s.prepareLogMessage (through env timeinfo) m = s.prepareLogMessage env m := by
  rw [Sink.prepareLogMessage_eq, Sink.prepareLogMessage_eq]
  split
  · next hacc =>
    congr 1
    unfold Sink.text Sink.patternText
    split
    · rfl
    · next hstack =>
      have hdefault : m.logType = .default := by
        cases hm : m.logType <;> simp_all
      refine List.foldl_ext _ _ _ fun msg cp hcp => ?_
      have hvalue : s.patternValue (through env timeinfo) m cp.ptype =
          s.patternValue env m cp.ptype := by
        cases hty : cp.ptype with
        | dt =>
          have hasks : asksTime s m = true := by
            simp only [asksTime, hacc, hdefault, beq_self_eq_true, Bool.true_and]
            exact List.any_eq_true.mpr ⟨cp, hcp, by simp [hty]⟩
          exact congrArg some (formatTimeToString_through (h hasks) s.datetimePattern)
        | _ => rfl
      unfold Sink.applyPattern
      rw [hvalue]
  · rfl

lemma dispatch_through {L : Logger} {m : LogMessage} {j : LoggerSink}
    (h : ∀ s, L.loggerSinkMap j = some s → asksTime s.base m = true →
      ∀ tm, env.localtime m.t = some tm → timeinfo = tm) (dev : Device) :
    L.dispatch (through env timeinfo) dev m j = L.dispatch env dev m j := by
  unfold Logger.dispatch
  cases hs : L.loggerSinkMap j with
  | none => rfl
  | some s =>
    have hbase := prepareLogMessage_through (h s hs)
    simp only [AnySink.prepareLogMessage, hbase]

end Render

/-! ### The threads -/

/-- A synchronous `Logger`, the buffer, and for each thread the sink of which it holds the mutex
and has got past `localtime`. -/
structure Shared (ι : Type) where
  sync : Threads.Sync ι
  timeinfo : Tm
  holds : ι → Option LoggerSink

inductive Label (ι : Type)
  /-- A thread takes the mutex of a sink and goes on until `localtime` has returned. -/
  | convert (i : ι) (j : LoggerSink) (c : LogCall)
  /-- A `hand` goes on from there, and ends with the release of the mutex. -/
  | act (a : Threads.Label ι)

variable {ι : Type} [DecidableEq ι]

def enabled (a : Label ι) (s : Shared ι) : Prop :=
  match a with
  | .convert i j c => (∃ rest, s.sync.inside i = some (c, j :: rest)) ∧
      (s.sync.logger.loggerSinkMap j).isSome = true ∧ s.holds i = none ∧
      ∀ i', s.holds i' ≠ some j
  | .act (.hand i j c dev) => Threads.enabled (.hand i j c dev) s.sync ∧ s.holds i = some j
  | .act (.sinkCall i o dev) => Threads.enabled (.sinkCall i o dev) s.sync ∧
      ∀ i' j, s.holds i' = some j → touches j o = false
  | .act a => Threads.enabled a s.sync

/-- What `localtime` leaves in the buffer. -/
def overwritten (env : Env) (L : Logger) (j : LoggerSink) (m : LogMessage) (timeinfo : Tm) : Tm :=
  match L.loggerSinkMap j with
  | some s => if asksTime s.base m then (env.localtime m.t).getD timeinfo else timeinfo
  | none => timeinfo

def next (env : Env) (a : Label ι) (s : Shared ι) : Shared ι :=
  match a with
  | .convert i j c =>
    { s with
      timeinfo := overwritten env s.sync.logger j c.message s.timeinfo
      holds := Function.update s.holds i (some j) }
  | .act (.hand i j c dev) =>
    { s with
      sync := Threads.next (through env s.timeinfo) (.hand i j c dev) s.sync
      holds := Function.update s.holds i none }
  | .act a => { s with sync := Threads.next env a s.sync }

def lts (env : Env) : Lts (Shared ι) (Label ι) := ⟨enabled, next env⟩

def start (L : Logger) (timeinfo : Tm) : Shared ι := ⟨Threads.start L, timeinfo, fun _ => none⟩

/-- The same steps with a `localtime` for each thread. -/
def acts (as : List (Label ι)) : List (Threads.Label ι) :=
  as.filterMap fun
    | .convert _ _ _ => none
    | .act a => some a

/-! ### Calls that do not show dates -/

/-- The template that an operation gives to a sink. -/
def templateOf : Op → Option (LoggerSink × Str)
  | .initSyslogSink _ _ T _ => some (.ealSyslog, T)
  | .initConsoleSink _ _ T _ => some (.ealConsole, T)
  | .initFileSink _ _ T _ _ _ => some (.ealFileSimple, T)
  | .setMsgTemplate j T => some (j, T)
  | _ => none

/-- No sink but that of the key `k` is given a template with a date. -/
def DateOnly (k : LoggerSink) (o : Op) : Prop :=
  ∀ j T, templateOf o = some (j, T) → j ≠ k → ¬ ['%', 'd'] <:+: T

/-- No other sink has one. -/
def Dateless (k : LoggerSink) (S : Spec) : Prop :=
  ∀ j, j ≠ k → ∀ e, S.entries j = some e → ¬ ['%', 'd'] <:+: e.msgTemplate

section Dateless

variable {k : LoggerSink} {S : Spec}

lemma Dateless.set (h : Dateless k S) (j : LoggerSink) {e : Option LoggerSpec.Entry}
    (he : j ≠ k → ∀ e', e = some e' → ¬ ['%', 'd'] <:+: e'.msgTemplate) :
    Dateless k (S.set j e) := by
  intro i hi e' he'
  by_cases hij : i = j
  · subst hij
    exact he hi e' (by simpa [Spec.set] using he')
  · exact h i hi e' (by simpa [Spec.set, hij] using he')

lemma Dateless.modify (h : Dateless k S) (j : LoggerSink) {g : LoggerSpec.Entry → LoggerSpec.Entry}
    (hg : j ≠ k → ∀ e, ¬ ['%', 'd'] <:+: e.msgTemplate → ¬ ['%', 'd'] <:+: (g e).msgTemplate) :
    Dateless k (S.modify j g) := by
  refine h.set j fun hj e' he' => ?_
  obtain ⟨e, he, rfl⟩ := Option.map_eq_some_iff.mp he'
  exact hg hj e (h j hj e he)

lemma Dateless.exec (h : Dateless k S) {o : Op} (ho : DateOnly k o) : Dateless k (S.exec o) := by
  cases o with
  | initSyslogSink b lvl T p => exact h.set _ fun hj e he => by cases he; exact ho _ _ rfl hj
  | initConsoleSink b lvl T p => exact h.set _ fun hj e he => by cases he; exact ho _ _ rfl hj
  | initFileSink b lvl T p path fl =>
    exact h.set _ fun hj e he => by cases he; exact ho _ _ rfl hj
  | setMsgTemplate j T => exact h.modify j fun hj _ _ => ho j T rfl hj
  | setDatetimePattern j p => exact h.modify j fun _ _ he => he
  | setEnabled j b => exact h.modify j fun _ _ he => he
  | setMinLvl j lvl => exact h.modify j fun _ _ he => he
  | discardSink j => exact h.set j fun _ e he => by cases he
  | _ => exact h

/-- A sink with a current list of patterns does not ask for the time if its template does not
name the date. -/
lemma asksTime_of_dateless {s : Sink} (hs : s.Fresh) (hT : ¬ ['%', 'd'] <:+: s.msgTemplate)
    (m : LogMessage) : asksTime s m = false := by
  have hnone : (s.vecConvPatterns.any fun cp => cp.ptype == .dt) = false := by
    rw [List.any_eq_false, hs]
    intro cp hcp
    obtain ⟨hmem, hfind⟩ := List.mem_filter.mp hcp
    -- the only entry of the table for the date
    intro hdt
    have hcp : cp.convPattern = ['%', 'd'] := by
      simp only [patternTable, List.mem_cons, List.not_mem_nil, or_false] at hmem
      rcases hmem with rfl | rfl | rfl | rfl | rfl | rfl | rfl | rfl | rfl <;> simp_all
    rw [hcp] at hfind
    have hcount : Text.count ['%', 'd'] s.msgTemplate ≠ 0 := by
      intro h0
      simp [(Text.find_zero_eq_none_iff (by simp)).mpr h0] at hfind
    exact hT ((Text.count_pos_iff (by simp)).mp (Nat.pos_of_ne_zero hcount))
  simp [asksTime, hnone]

end Dateless

/-! ### The invariant -/

variable {env : Env} {k : LoggerSink}

/-- Who holds a mutex is at the sink, and nobody else is; and the buffer holds the time of the
message that the sink with the dates is being handed. -/
structure Right (env : Env) (k : LoggerSink) (s : Shared ι) : Prop where
  tidy : Threads.Tidy s.sync
  fresh : Fresh s.sync.logger
  dateless : Dateless k (abs s.sync.logger)
  inside : ∀ i j, s.holds i = some j → ∃ c rest, s.sync.inside i = some (c, j :: rest)
  present : ∀ i j, s.holds i = some j → (s.sync.logger.loggerSinkMap j).isSome = true
  exclusive : ∀ i i' j, s.holds i = some j → s.holds i' = some j → i = i'
  timeinfo : ∀ i c rest, s.holds i = some k → s.sync.inside i = some (c, k :: rest) →
    ∀ a, s.sync.logger.loggerSinkMap k = some a → asksTime a.base c.message = true →
    ∀ tm, env.localtime c.message.t = some tm → s.timeinfo = tm

section Step

variable {s : Shared ι}

omit [DecidableEq ι] in
/-- At another sink nobody asks for the time. -/
lemma Right.asksTime_ne (h : Right env k s) {j : LoggerSink} (hj : j ≠ k) {a : AnySink}
    (ha : s.sync.logger.loggerSinkMap j = some a) (m : LogMessage) :
    asksTime a.base m = false := by
  refine asksTime_of_dateless (h.fresh j a ha) ?_ m
  exact h.dateless j hj (entryOf a.base) (by simp [LoggerSpec.abs, ha])

omit [DecidableEq ι] in
/-- A sink that is handed a message gets the right date. -/
lemma Right.dispatch_eq (h : Right env k s) {i : ι} {j : LoggerSink} {c : LogCall}
    {rest : List LoggerSink} (hin : s.sync.inside i = some (c, j :: rest))
    (hholds : s.holds i = some j) (dev : Device) :
    s.sync.logger.dispatch (through env s.timeinfo) dev c.message j =
      s.sync.logger.dispatch env dev c.message j := by
  refine dispatch_through (fun a ha hasks => ?_) dev
  by_cases hj : j = k
  · subst hj
    exact h.timeinfo i c rest hholds hin a ha hasks
  · simp [h.asksTime_ne hj ha] at hasks

/-- The buffer is only overwritten for the sink with the dates. -/
lemma Right.convert (h : Right env k s) {i : ι} {j : LoggerSink} {c : LogCall}
    (ha : enabled (.convert i j c) s) : Right env k (next env (.convert i j c) s) := by
  obtain ⟨⟨rest, hin⟩, hsome, hnone, hfree⟩ := ha
  have hholds : ∀ i' j', Function.update s.holds i (some j) i' = some j' →
      (i' = i ∧ j' = j) ∨ (i' ≠ i ∧ s.holds i' = some j') := by
    intro i' j' hi'
    by_cases hii : i' = i
    · subst hii
      exact Or.inl ⟨rfl, by simpa using hi'.symm⟩
    · exact Or.inr ⟨hii, by simpa [hii] using hi'⟩
  refine ⟨h.tidy, h.fresh, h.dateless, fun i' j' hi' => ?_, fun i' j' hi' => ?_,
    fun i₁ i₂ j' h₁ h₂ => ?_, fun i' c' rest' hi' hin' a hk hasks tm htm => ?_⟩
  · rcases hholds i' j' hi' with ⟨rfl, rfl⟩ | ⟨-, hi'⟩
    · exact ⟨c, rest, hin⟩
    · exact h.inside i' j' hi'
  · rcases hholds i' j' hi' with ⟨-, rfl⟩ | ⟨-, hi'⟩
    · exact hsome
    · exact h.present i' j' hi'
  · rcases hholds i₁ j' h₁ with ⟨rfl, rfl⟩ | ⟨-, hold₁⟩
    · rcases hholds i₂ j' h₂ with ⟨rfl, -⟩ | ⟨-, hold₂⟩
      · rfl
      · exact absurd hold₂ (hfree i₂)
    · rcases hholds i₂ j' h₂ with ⟨rfl, rfl⟩ | ⟨-, hold₂⟩
      · exact absurd hold₁ (hfree i₁)
      · exact h.exclusive i₁ i₂ j' hold₁ hold₂
  · rcases hholds i' k hi' with ⟨rfl, rfl⟩ | ⟨-, hi'⟩
    · obtain ⟨rfl, -⟩ : c = c' ∧ k :: rest = k :: rest' := by
        simpa using hin.symm.trans hin'
      have hk' : s.sync.logger.loggerSinkMap k = some a := hk
      simp [next, overwritten, hk', hasks, htm]
    · -- the mutex of the sink is taken, so this is another one
      have hj : j ≠ k := by
        rintro rfl
        exact hfree i' hi'
      obtain ⟨b, hb⟩ := Option.isSome_iff_exists.mp hsome
      have hsame : (next env (.convert i j c) s).timeinfo = s.timeinfo := by
        simp [next, overwritten, hb, h.asksTime_ne hj hb]
      rw [hsame]
      exact h.timeinfo i' c' rest' hi' hin' a hk hasks tm htm

omit [DecidableEq ι] in
/-- A step that leaves alone who holds a mutex, and the sinks they are at. -/
lemma Right.frame (h : Right env k s) {t : Threads.Sync ι} (htidy : Threads.Tidy t)
    (hfresh : Fresh t.logger) (hdateless : Dateless k (abs t.logger))
    (hinside : ∀ i j, s.holds i = some j → t.inside i = s.sync.inside i)
    (hsink : ∀ i j, s.holds i = some j →
      t.logger.loggerSinkMap j = s.sync.logger.loggerSinkMap j) :
    Right env k { s with sync := t } := by
  refine ⟨htidy, hfresh, hdateless, fun i j hi => ?_, fun i j hi => ?_, h.exclusive,
    fun i c rest hi hin a hk => ?_⟩
  · simp only [hinside i j hi]
    exact h.inside i j hi
  · simp only [hsink i j hi]
    exact h.present i j hi
  · have hold : s.holds i = some k := hi
    refine h.timeinfo i c rest hold ?_ a ?_
    · rw [← hinside i k hold]
      exact hin
    · rw [← hsink i k hold]
      exact hk

/-- A mutex is released; the other threads are at other sinks. -/
lemma Right.release (h : Right env k s) {i : ι} {j : LoggerSink} (hi : s.holds i = some j) :
    Right env k { s with holds := Function.update s.holds i none } ∧
      ∀ i' j', Function.update s.holds i none i' = some j' → i' ≠ i ∧ j ≠ j' := by
  have hothers : ∀ i' j', Function.update s.holds i none i' = some j' →
      i' ≠ i ∧ s.holds i' = some j' := by
    intro i' j' hi'
    by_cases hii : i' = i
    · subst hii
      simp at hi'
    · exact ⟨hii, by simpa [hii] using hi'⟩
  refine ⟨⟨h.tidy, h.fresh, h.dateless, fun i' j' hi' => h.inside i' j' (hothers i' j' hi').2,
    fun i' j' hi' => h.present i' j' (hothers i' j' hi').2,
    fun i₁ i₂ j' h₁ h₂ => h.exclusive i₁ i₂ j' (hothers i₁ j' h₁).2 (hothers i₂ j' h₂).2,
    fun i' c rest hi' => h.timeinfo i' c rest (hothers i' k hi').2⟩, fun i' j' hi' => ?_⟩
  obtain ⟨hne, hold⟩ := hothers i' j' hi'
  refine ⟨hne, ?_⟩
  rintro rfl
  exact hne (h.exclusive i' i j hold hi)

/-- The sink gets its message. -/
lemma Right.hand (h : Right env k s) {i : ι} {j : LoggerSink} {c : LogCall} {dev : Device}
    (ha : enabled (.act (.hand i j c dev)) s) :
    (next env (.act (.hand i j c dev)) s).sync = Threads.next env (.hand i j c dev) s.sync ∧
      Right env k (next env (.act (.hand i j c dev)) s) := by
  obtain ⟨hhand, hholds⟩ := ha
  obtain ⟨⟨rest, hin⟩, -⟩ := id hhand
  have hsync : Threads.next (through env s.timeinfo) (.hand i j c dev) s.sync =
      Threads.next env (.hand i j c dev) s.sync := by
    simp only [Threads.next, h.dispatch_eq hin hholds]
  obtain ⟨hreleased, hothers⟩ := h.release hholds
  have htype : c.message.logType = .stack ↔ c.message.severity = .ealStack := by
    rw [LogCall.message, LogMessage.build_severity]
    exact LogMessage.build_logType ..
  have hsim := dispatch_simulates h.fresh env dev htype j
  refine ⟨hsync, ?_⟩
  simp only [next, hsync]
  refine hreleased.frame (Threads.tidy_step h.tidy hhand) hsim.fresh ?_ (fun i' j' hi' => ?_)
    fun i' j' hi' => ?_
  · have hdateless : Dateless k ((abs s.sync.logger).emit
        ((abs s.sync.logger).emission env c.message j)) := h.dateless
    rw [← hsim.abs_eq] at hdateless
    exact hdateless
  · simp [Threads.next, (hothers i' j' hi').1]
  · have hslice := Slice.slice_dispatch_ne h.tidy.good (hothers i' j' hi').2 env dev c.message
    have hmap : (s.sync.logger.dispatch env dev c.message j).state.loggerSinkMap j' =
        s.sync.logger.loggerSinkMap j' := by
      rw [← Slice.slice_map_self j', hslice, Slice.slice_map_self]
    exact hmap

/-- A call on a sink of which nobody holds the mutex. -/
lemma Right.sinkCall (h : Right env k s) {i : ι} {o : Op} {dev : Device}
    (ha : enabled (.act (.sinkCall i o dev)) s) (ho : DateOnly k o) :
    Right env k (next env (.act (.sinkCall i o dev)) s) := by
  obtain ⟨hcall, hfree⟩ := ha
  have hsim := exec_simulates h.fresh (o, dev)
  have htidy : Threads.Tidy (Threads.next env (.sinkCall i o dev) s.sync) :=
    Threads.tidy_step h.tidy hcall
  refine h.frame htidy hsim.fresh ?_ (fun _ _ _ => rfl) fun i' j hi' => ?_
  · have hexec : Dateless k (Spec.exec o (abs s.sync.logger)) := h.dateless.exec ho
    rw [← hsim.abs_eq] at hexec
    exact hexec
  · have hslice := Slice.slice_exec_ne h.tidy.good (hfree i' j hi') dev
    have hmap : (s.sync.logger.exec (o, dev)).state.loggerSinkMap j =
        s.sync.logger.loggerSinkMap j := by
      rw [← Slice.slice_map_self j, hslice, Slice.slice_map_self]
    exact hmap

/-- A thread that holds no mutex goes on. -/
lemma Right.moves (h : Right env k s) {a : Threads.Label ι} (ha : Threads.enabled a s.sync)
    (hlogger : (Threads.next env a s.sync).logger = s.sync.logger)
    (hinside : ∀ i j, s.holds i = some j →
      (Threads.next env a s.sync).inside i = s.sync.inside i) :
    Right env k { s with sync := Threads.next env a s.sync } := by
  have htidy : Threads.Tidy (Threads.next env a s.sync) := Threads.tidy_step h.tidy ha
  refine h.frame htidy ?_ ?_ hinside fun _ _ _ => by rw [hlogger]
  · rw [hlogger]
    exact h.fresh
  · rw [hlogger]
    exact h.dateless

/-- Every step is one of the threads that have a `localtime` each, or none. -/
lemma Right.act (h : Right env k s) {a : Threads.Label ι} (ha : enabled (.act a) s)
    (hdates : ∀ i o dev, a = .sinkCall i o dev → DateOnly k o) :
    Threads.enabled a s.sync ∧ (next env (.act a) s).sync = Threads.next env a s.sync ∧
      Right env k (next env (.act a) s) := by
  cases a with
  | hand i j c dev => exact ⟨ha.1, h.hand ha⟩
  | sinkCall i o dev => exact ⟨ha.1, rfl, h.sinkCall ha (hdates i o dev rfl)⟩
  | call i c =>
    have hnone : s.sync.inside i = none := ha
    refine ⟨ha, rfl, h.moves ha rfl fun i' j hi' => ?_⟩
    obtain ⟨c', rest, hin⟩ := h.inside i' j hi'
    have hne : i' ≠ i := by
      rintro rfl
      simp [hin] at hnone
    simp [Threads.next, hne]
  | skip i j c =>
    obtain ⟨⟨rest, hin⟩, habsent⟩ := id ha
    refine ⟨ha, rfl, h.moves ha rfl fun i' j' hi' => ?_⟩
    obtain ⟨c', rest', hin'⟩ := h.inside i' j' hi'
    -- the sink of a thread that holds its mutex is there
    have hne : i' ≠ i := by
      rintro rfl
      have hj : j = j' := by simp_all
      have hpresent := h.present i' j' hi'
      simp [← hj, habsent] at hpresent
    simp [Threads.next, hne]
  | finish i =>
    obtain ⟨c, hin⟩ := id ha
    refine ⟨ha, rfl, h.moves ha rfl fun i' j hi' => ?_⟩
    obtain ⟨c', rest, hin'⟩ := h.inside i' j hi'
    have hne : i' ≠ i := by
      rintro rfl
      simp [hin] at hin'
    simp [Threads.next, hne]

end Step

/-! ### Runs -/

lemma Dateless.run {S : Spec} (h : Dateless k S) {os : List Op} (hos : ∀ o ∈ os, DateOnly k o) :
    Dateless k (S.run os) := by
  induction os generalizing S with
  | nil => exact h
  | cons o os ih =>
    exact ih (h.exec (hos o List.mem_cons_self)) fun o' ho' => hos o' (List.mem_cons_of_mem o ho')

omit [DecidableEq ι] in
lemma right_start (env : Env) (d : Disk) {setup : List (Op × Device)}
    (hsetup : ∀ o ∈ setup, DateOnly k o.1) (timeinfo : Tm) :
    Right env k (start ((Logger.new d).run setup) timeinfo : Shared ι) := by
  have hsim := run_simulates (new_fresh d) setup
  refine ⟨⟨Slice.run_good (FileView.new_good d) setup, by simp [start, Threads.start]⟩, hsim.fresh,
    ?_, by simp [start], by simp [start], by simp [start], by simp [start]⟩
  have hempty : Dateless k (abs (Logger.new d)) := by
    intro j _ e he
    simp [LoggerSpec.abs, Logger.new] at he
  have hrun : Dateless k ((abs (Logger.new d)).run (setup.map Prod.fst)) := by
    refine hempty.run fun o ho => ?_
    obtain ⟨o', ho', rfl⟩ := List.mem_map.mp ho
    exact hsetup o' ho'
  rw [← hsim.abs_eq] at hrun
  exact hrun

/-- The threads would have got to the same state if each had a `localtime` of its own. -/
structure Undisturbed (env : Env) (L : Logger) (as : List (Label ι)) (s : Shared ι) : Prop where
  legal : (Threads.lts env).Legal (Threads.start L) (acts as)
  same : s.sync = (Threads.lts env).run (Threads.start L) (acts as)

/-- A clock that counts the seconds, and a `strftime` that prints them. -/
def seconds : Env :=
  { Env.bare with
    localtime := fun t => some ⟨t, 0, 0, 1, 0, 70, 4, 0, 0⟩
    expansion := fun _ tm => intToString tm.sec }

def console (T : Str) : Op × Device := (.initConsoleSink true .ealDebug T [], Device.willing)

def syslog (T : Str) : Op × Device := (.initSyslogSink true .ealDebug T [], Device.willing)

/-- One thread is at the second sink; the other comes by at the first, gets past `localtime`, and
is overtaken. -/
def overtaken : List (Label Bool) :=
  let c := LogCall.plain 1 [] "a".toList .ealInfo
  let c' := LogCall.plain 2 [] "b".toList .ealInfo
  [.act (.call true c), .convert true .ealConsole c,
    .act (.hand true .ealConsole c Device.willing), .act (.call false c'),
    .convert false .ealConsole c', .convert true .ealSyslog c,
    .act (.hand false .ealConsole c' Device.willing),
    .act (.hand true .ealSyslog c Device.willing)]

/-- With dates at both sinks the second message is given the time of the first. -/
example : ((lts seconds).run (start ((Logger.new Disk.empty).run
      [console "%d %m".toList, syslog "%d %m".toList]) ⟨0, 0, 0, 1, 0, 70, 4, 0, 0⟩)
        overtaken).sync.logger.trace =
    [.wrote .ealConsole "1 a".toList, .wrote .ealConsole "1 b".toList,
      .wrote .ealSyslog "1 a".toList] := by
  decide

end Ealogger.LocalTime
