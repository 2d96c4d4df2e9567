import Ealogger.Lib.Lts
import Ealogger.LogMessage
import Mathlib.Logic.Function.Basic

/-!
Sinks that come and go while messages are dispatched.

`internal_log_routine` goes over the map with an iterator and locks the mutex of a sink only
around the call on it. `discard_sink` and `init_*_sink` erase and insert entries under the same
mutex. Between the arrival of the iterator at an entry and the lock, and between the release
and the advance, nothing protects the entry. The nodes of the map are numbered here, so that an
entry made anew is told from the one that was erased.
-/

namespace Ealogger.Removal

variable {ι : Type}

inductive Holder (ι : Type)
  | dispatcher
  | client (i : ι)
  deriving DecidableEq

/-- Where `internal_log_routine` is: between two messages, or with its iterator at a node of
the map. -/
inductive Pc
  | idle
  | arrived (k : LoggerSink) (n : ℕ)
  | locked (k : LoggerSink) (n : ℕ)
  | called (k : LoggerSink) (n : ℕ)
  | released (k : LoggerSink) (n : ℕ)
  deriving DecidableEq

inductive MapOp
  | discard (k : LoggerSink)
  | init (k : LoggerSink)
  deriving DecidableEq

def MapOp.key : MapOp → LoggerSink
  | .discard k => k
  | .init k => k

/-- A client holds the mutex of the sink before and after it has changed the map. -/
inductive Client
  | outside
  | entered (o : MapOp)
  | leaving (o : MapOp)
  deriving DecidableEq

structure State (ι : Type) where
  nodes : LoggerSink → Option ℕ
  /-- The number of the next node. -/
  fresh : ℕ
  mutex : LoggerSink → Option (Holder ι)
  pc : Pc
  clients : ι → Client

inductive Label (ι : Type)
  | begin
  | lock
  | call
  | unlock
  | advance
  | acquire (i : ι) (o : MapOp)
  | act (i : ι)
  | release (i : ι)

/-- The iterator goes to the first of these keys that has an entry. -/
def arrive (nodes : LoggerSink → Option ℕ) : List LoggerSink → Pc
  | [] => .idle
  | k :: ks => match nodes k with
    | some n => .arrived k n
    | none => arrive nodes ks

def keysAfter (k : LoggerSink) : List LoggerSink := (sinkKeys.dropWhile (· ≠ k)).tail

/-- The node the iterator stands at. -/
def Pc.entry : Pc → Option (LoggerSink × ℕ)
  | .idle => none
  | .arrived k n => some (k, n)
  | .locked k n => some (k, n)
  | .called k n => some (k, n)
  | .released k n => some (k, n)

/-- `erase`, or the insertion of a node unless the entry is there and is only assigned to. A node
comes into the map together with its sink: both happen under the mutex, in one step here. -/
def change (o : MapOp) (s : State ι) : State ι :=
  match o with
  | .discard k => { s with nodes := Function.update s.nodes k none }
  | .init k => match s.nodes k with
    | some _ => s
    | none => { s with nodes := Function.update s.nodes k (some s.fresh), fresh := s.fresh + 1 }

section Steps

variable [DecidableEq ι]

def enabled (a : Label ι) (s : State ι) : Prop :=
  match a with
  | .begin => s.pc = .idle
  | .lock => ∃ k n, s.pc = .arrived k n ∧ s.mutex k = none
  | .call => ∃ k n, s.pc = .locked k n
  | .unlock => ∃ k n, s.pc = .called k n
  | .advance => ∃ k n, s.pc = .released k n
  | .acquire i o => s.clients i = .outside ∧ s.mutex o.key = none
  | .act i => ∃ o, s.clients i = .entered o
  | .release i => ∃ o, s.clients i = .leaving o

def next (a : Label ι) (s : State ι) : State ι :=
  match a, s.pc with
  | .begin, _ => { s with pc := arrive s.nodes sinkKeys }
  | .lock, .arrived k n =>
    { s with pc := .locked k n, mutex := Function.update s.mutex k (some .dispatcher) }
  | .call, .locked k n => { s with pc := .called k n }
  | .unlock, .called k n => { s with pc := .released k n, mutex := Function.update s.mutex k none }
  | .advance, .released k _ => { s with pc := arrive s.nodes (keysAfter k) }
  | .acquire i o, _ =>
    { s with
      clients := Function.update s.clients i (.entered o)
      mutex := Function.update s.mutex o.key (some (.client i)) }
  | .act i, _ => match s.clients i with
    | .entered o => { change o s with clients := Function.update s.clients i (.leaving o) }
    | _ => s
  | .release i, _ => match s.clients i with
    | .leaving o =>
      { s with
        clients := Function.update s.clients i .outside
        mutex := Function.update s.mutex o.key none }
    | _ => s
  | _, _ => s

def lts : Lts (State ι) (Label ι) := ⟨enabled, next⟩

/-- A `Logger` without sinks. -/
def start : State ι := ⟨fun _ => none, 0, fun _ => none, .idle, fun _ => .outside⟩

end Steps

/-- The entry the iterator stands at, if any, is in the map, and with it its sink. -/
def Intact (s : State ι) : Prop := ∀ k n, s.pc.entry = some (k, n) → s.nodes k = some n

/-- The dispatcher calls through its entry, or moves on from it. -/
def Uses : Label ι → Prop
  | .call => True
  | .advance => True
  | _ => False

/-- A client erases the entry at which the iterator stands. -/
def Pulls (s : State ι) (a : Label ι) : Prop :=
  ∃ i k n, a = .act i ∧ s.clients i = .entered (.discard k) ∧ s.pc.entry = some (k, n)

section Along

variable [DecidableEq ι]

/-- Whenever the dispatcher uses an entry, the entry is in the map. -/
def Safe (as : List (Label ι)) : Prop :=
  ∀ pre a post, as = pre ++ a :: post → Uses a → Intact (lts.run start pre)

/-- No step erases the entry at which the iterator stands. -/
def NoPull (as : List (Label ι)) : Prop :=
  ∀ pre a post, as = pre ++ a :: post → ¬ Pulls (lts.run start pre) a

end Along

/-! ### One step -/

section Step

lemma arrive_entry {nodes : LoggerSink → Option ℕ} {ks : List LoggerSink} {k : LoggerSink} {n : ℕ}
    (h : (arrive nodes ks).entry = some (k, n)) : nodes k = some n := by
  induction ks with
  | nil => simp [arrive, Pc.entry] at h
  | cons j ks ih =>
    cases hj : nodes j with
    | none => exact ih (by simpa [arrive, hj] using h)
    | some m =>
      obtain ⟨rfl, rfl⟩ : j = k ∧ m = n := by simpa [arrive, hj, Pc.entry] using h
      exact hj

variable [DecidableEq ι] {s : State ι} {a : Label ι}

section Unfold

attribute [local simp] next

/-- What a client does under its mutex. -/
lemma next_act {i : ι} {o : MapOp} (ho : s.clients i = .entered o) :
    next (.act i) s = { change o s with clients := Function.update s.clients i (.leaving o) } := by
  simp [ho]

omit [DecidableEq ι] in
lemma change_pc (o : MapOp) : (change o s).pc = s.pc := by
  cases o with
  | discard k => rfl
  | init k => simp only [change]; split <;> rfl

/-- Any other step leaves the map alone. -/
lemma next_nodes (ha : ∀ i, a ≠ .act i) :
    (next a s).nodes = s.nodes ∧ (next a s).fresh = s.fresh := by
  cases a with
  | act i => exact absurd rfl (ha i)
  | release i => simp only [next]; split <;> exact ⟨rfl, rfl⟩
  | _ => cases hpc : s.pc <;> simp [hpc]

/-- The iterator stays where it is until the dispatcher moves on. -/
lemma next_entry (ha : enabled a s) (hstay : a ≠ .begin) (huse : a ≠ .advance) :
    (next a s).pc.entry = s.pc.entry := by
  cases a with
  | begin => exact absurd rfl hstay
  | advance => exact absurd rfl huse
  | lock =>
    obtain ⟨k, n, hpc, -⟩ := ha
    simp [hpc, Pc.entry]
  | call =>
    obtain ⟨k, n, hpc⟩ := ha
    simp [hpc, Pc.entry]
  | unlock =>
    obtain ⟨k, n, hpc⟩ := ha
    simp [hpc, Pc.entry]
  | acquire i o => simp
  | act i =>
    obtain ⟨o, ho⟩ := ha
    rw [next_act ho]
    exact congrArg Pc.entry (change_pc o)
  | release i =>
    obtain ⟨o, ho⟩ := ha
    simp [ho]

/-- Where the iterator arrives there is an entry. -/
lemma next_intact_of_moves (ha : enabled a s) (hmove : a = .begin ∨ a = .advance) :
    Intact (next a s) := by
  intro k n hentry
  rcases hmove with rfl | rfl
  · have harrive : (arrive s.nodes sinkKeys).entry = some (k, n) := by simpa using hentry
    exact arrive_entry harrive
  · obtain ⟨j, m, hpc⟩ := ha
    have harrive : (next .advance s).pc = arrive s.nodes (keysAfter j) := by simp [hpc]
    rw [(next_nodes (by simp)).1]
    exact arrive_entry (harrive ▸ hentry)

end Unfold

/-- The map changes only where a client is at work under its mutex. -/
lemma nodes_cases (ha : enabled a s) :
    (∃ i o, a = .act i ∧ s.clients i = .entered o ∧ (next a s).nodes = (change o s).nodes ∧
      (next a s).fresh = (change o s).fresh) ∨
    (next a s).nodes = s.nodes ∧ (next a s).fresh = s.fresh := by
  by_cases hact : ∃ i, a = .act i
  · obtain ⟨i, rfl⟩ := hact
    obtain ⟨o, ho⟩ := ha
    exact Or.inl ⟨i, o, rfl, ho, by rw [next_act ho], by rw [next_act ho]⟩
  · exact Or.inr (next_nodes fun i hi => hact ⟨i, hi⟩)

omit [DecidableEq ι] in
/-- An entry stays in the map until it is discarded. -/
lemma change_keeps {o : MapOp} {k : LoggerSink} {n : ℕ} (h : s.nodes k = some n)
    (ho : o ≠ .discard k) : (change o s).nodes k = some n := by
  cases o with
  | discard j =>
    have hj : k ≠ j := fun hkj => ho (congrArg MapOp.discard hkj.symm)
    simpa [change, hj] using h
  | init j =>
    cases hj : s.nodes j with
    | some m => simpa [change, hj] using h
    | none =>
      have hk : k ≠ j := by
        rintro rfl
        simp [hj] at h
      simpa [change, hj, hk] using h

lemma step_intact (h : Intact s) (ha : enabled a s) (hpull : ¬ Pulls s a) :
    Intact (next a s) := by
  by_cases hmove : a = .begin ∨ a = .advance
  · exact next_intact_of_moves ha hmove
  obtain ⟨hbegin, hadvance⟩ := not_or.mp hmove
  intro k n hentry
  rw [next_entry ha hbegin hadvance] at hentry
  have hnode := h k n hentry
  rcases nodes_cases ha with ⟨i, o, rfl, ho, hnodes, -⟩ | ⟨hnodes, -⟩
  · rw [hnodes]
    refine change_keeps hnode ?_
    rintro rfl
    exact hpull ⟨i, k, n, rfl, ho, hentry⟩
  · rw [hnodes]
    exact hnode

omit [DecidableEq ι] in
/-- A node that is in the map was there before or is new. -/
lemma change_nodes {o : MapOp} {k : LoggerSink} {n : ℕ} (h : (change o s).nodes k = some n) :
    s.nodes k = some n ∨ n = s.fresh ∧ (change o s).fresh = s.fresh + 1 := by
  cases o with
  | discard j =>
    by_cases hk : k = j
    · simp [change, hk] at h
    · exact Or.inl (by simpa [change, hk] using h)
  | init j =>
    cases hj : s.nodes j with
    | some m => exact Or.inl (by simpa [change, hj] using h)
    | none =>
      by_cases hk : k = j
      · subst hk
        exact Or.inr ⟨by simpa [change, hj, eq_comm] using h, by simp [change, hj]⟩
      · exact Or.inl (by simpa [change, hj, hk] using h)

omit [DecidableEq ι] in
lemma change_fresh (o : MapOp) : s.fresh ≤ (change o s).fresh := by
  cases o with
  | discard j => exact Nat.le_refl _
  | init j => simp only [change]; split <;> simp

/-- A node that is in the map after a step was there before or is new. -/
lemma next_nodes_or (ha : enabled a s) {k : LoggerSink} {n : ℕ}
    (h : (next a s).nodes k = some n) :
    s.nodes k = some n ∨ n = s.fresh ∧ (next a s).fresh = s.fresh + 1 := by
  rcases nodes_cases ha with ⟨i, o, -, -, hnodes, hfresh⟩ | ⟨hnodes, -⟩
  · rw [hfresh]
    exact change_nodes (hnodes ▸ h)
  · exact Or.inl (hnodes ▸ h)

lemma next_fresh (ha : enabled a s) : s.fresh ≤ (next a s).fresh := by
  rcases nodes_cases ha with ⟨i, o, -, -, -, hfresh⟩ | ⟨-, hfresh⟩
  · exact hfresh ▸ change_fresh o
  · exact Nat.le_of_eq hfresh.symm

/-- Every node has been numbered, also the one the iterator stands at. -/
structure Numbered (s : State ι) : Prop where
  nodes : ∀ k n, s.nodes k = some n → n < s.fresh
  entry : ∀ k n, s.pc.entry = some (k, n) → n < s.fresh

lemma step_numbered (h : Numbered s) (ha : enabled a s) : Numbered (next a s) := by
  have hnodes : ∀ k n, (next a s).nodes k = some n → n < (next a s).fresh := by
    intro k n hn
    have hfresh := next_fresh ha
    rcases next_nodes_or ha hn with hn | ⟨rfl, hf⟩
    · exact Nat.lt_of_lt_of_le (h.nodes k n hn) hfresh
    · omega
  refine ⟨hnodes, fun k n hentry => ?_⟩
  by_cases hmove : a = .begin ∨ a = .advance
  · exact hnodes k n (next_intact_of_moves ha hmove k n hentry)
  · obtain ⟨hbegin, hadvance⟩ := not_or.mp hmove
    rw [next_entry ha hbegin hadvance] at hentry
    exact Nat.lt_of_lt_of_le (h.entry k n hentry) (next_fresh ha)

/-- The iterator stands at a node that is no longer in the map. -/
structure Lost (s : State ι) (k : LoggerSink) (n : ℕ) : Prop where
  entry : s.pc.entry = some (k, n)
  gone : s.nodes k ≠ some n
  old : n < s.fresh

/-- The node never comes back: an entry made anew has a node of its own. -/
lemma step_lost {k : LoggerSink} {n : ℕ} (h : Lost s k n) (ha : enabled a s) (huse : ¬ Uses a) :
    Lost (next a s) k n := by
  have hbegin : a ≠ .begin := by
    rintro rfl
    have hpc : s.pc = .idle := ha
    have hentry := h.entry
    simp [hpc, Pc.entry] at hentry
  have hadvance : a ≠ .advance := by
    rintro rfl
    exact huse trivial
  refine ⟨(next_entry ha hbegin hadvance).trans h.entry, fun hn => ?_,
    Nat.lt_of_lt_of_le h.old (next_fresh ha)⟩
  rcases next_nodes_or ha hn with hn | ⟨rfl, -⟩
  · exact h.gone hn
  · exact absurd h.old (Nat.lt_irrefl _)

lemma lost_of_pull (h : Numbered s) (hpull : Pulls s a) : ∃ k n, Lost (next a s) k n := by
  obtain ⟨i, k, n, rfl, ho, hentry⟩ := hpull
  refine ⟨k, n, ?_⟩
  rw [next_act ho]
  exact ⟨hentry, by simp [change], h.entry k n hentry⟩

/-! ### The mutexes -/

/-- Who is between the lock and the release of a mutex holds it. -/
structure Locked (s : State ι) : Prop where
  dispatcher : ∀ k n, s.pc = .locked k n ∨ s.pc = .called k n → s.mutex k = some .dispatcher
  client : ∀ i o, s.clients i = .entered o ∨ s.clients i = .leaving o →
    s.mutex o.key = some (.client i)

omit [DecidableEq ι] in
/-- A mutex that the client does not hold is another one than its own. -/
lemma Locked.key_ne (h : Locked s) {i : ι} {o : MapOp}
    (ho : s.clients i = .entered o ∨ s.clients i = .leaving o) {k : LoggerSink}
    (hk : s.mutex k ≠ some (.client i)) : o.key ≠ k := by
  rintro rfl
  exact hk (h.client i o ho)

omit [DecidableEq ι] in
/-- The same for the dispatcher. -/
lemma Locked.pc_ne (h : Locked s) {k : LoggerSink} {n : ℕ}
    (hpc : s.pc = .locked k n ∨ s.pc = .called k n) {j : LoggerSink}
    (hj : s.mutex j ≠ some .dispatcher) : k ≠ j := by
  rintro rfl
  exact hj (h.dispatcher k n hpc)

lemma arrive_cases (nodes : LoggerSink → Option ℕ) (ks : List LoggerSink) :
    arrive nodes ks = .idle ∨ ∃ k n, arrive nodes ks = .arrived k n := by
  induction ks with
  | nil => exact Or.inl rfl
  | cons k ks ih =>
    cases hk : nodes k with
    | none => simpa [arrive, hk] using ih
    | some n => exact Or.inr ⟨k, n, by simp [arrive, hk]⟩

omit [DecidableEq ι] in
lemma change_mutex (o : MapOp) : (change o s).mutex = s.mutex := by
  cases o with
  | discard k => rfl
  | init k => simp only [change]; split <;> rfl

omit [DecidableEq ι] in
/-- Moving the iterator takes no mutex. -/
lemma Locked.arrive (h : Locked s) {ks : List LoggerSink} {nodes : LoggerSink → Option ℕ} :
    Locked { s with pc := arrive nodes ks } := by
  refine ⟨fun k n hpc => ?_, h.client⟩
  rcases arrive_cases nodes ks with hidle | ⟨j, m, hj⟩
  · simp [hidle] at hpc
  · simp [hj] at hpc

lemma step_locked (h : Locked s) (ha : enabled a s) : Locked (next a s) := by
  cases a with
  | begin => exact h.arrive
  | lock =>
    obtain ⟨k, n, hpc, hfree⟩ := ha
    simp only [next, hpc]
    refine ⟨fun j m hj => ?_, fun i o ho => ?_⟩
    · obtain ⟨rfl, rfl⟩ : k = j ∧ n = m := by simpa using hj
      simp
    · have hkey := h.key_ne ho (k := k) (by simp [hfree])
      simpa [hkey] using h.client i o ho
  | call =>
    obtain ⟨k, n, hpc⟩ := ha
    simp only [next, hpc]
    refine ⟨fun j m hj => ?_, h.client⟩
    obtain ⟨rfl, rfl⟩ : k = j ∧ n = m := by simpa using hj
    exact h.dispatcher k n (Or.inl hpc)
  | unlock =>
    obtain ⟨k, n, hpc⟩ := ha
    have hmine := h.dispatcher k n (Or.inr hpc)
    simp only [next, hpc]
    refine ⟨fun j m hj => by simp at hj, fun i o ho => ?_⟩
    have hkey := h.key_ne ho (k := k) (by simp [hmine])
    simpa [hkey] using h.client i o ho
  | advance =>
    obtain ⟨k, n, hpc⟩ := ha
    simp only [next, hpc]
    exact h.arrive
  | acquire i o =>
    obtain ⟨hout, hfree⟩ := ha
    refine ⟨fun k n hpc => ?_, fun j o' ho' => ?_⟩
    · have hkey := h.pc_ne (by simpa [next] using hpc) (j := o.key) (by simp [hfree])
      simpa [next, hkey] using h.dispatcher k n (by simpa [next] using hpc)
    · by_cases hj : j = i
      · subst hj
        obtain rfl : o = o' := by simpa [next] using ho'
        simp [next]
      · have hkey := h.key_ne (by simpa [next, hj] using ho') (k := o.key) (by simp [hfree])
        simpa [next, hkey] using h.client j o' (by simpa [next, hj] using ho')
  | act i =>
    obtain ⟨o, ho⟩ := ha
    rw [next_act ho]
    refine ⟨fun k n hpc => ?_, fun j o' ho' => ?_⟩
    · simpa [change_mutex] using h.dispatcher k n (by simpa [change_pc] using hpc)
    · by_cases hj : j = i
      · subst hj
        obtain rfl : o = o' := by simpa using ho'
        simpa [change_mutex] using h.client j o (Or.inl ho)
      · simpa [change_mutex] using h.client j o' (by simpa [hj] using ho')
  | release i =>
    obtain ⟨o, ho⟩ := ha
    have hmine := h.client i o (Or.inr ho)
    refine ⟨fun k n hpc => ?_, fun j o' ho' => ?_⟩
    · have hkey := h.pc_ne (by simpa [next, ho] using hpc) (j := o.key) (by simp [hmine])
      simpa [next, ho, hkey] using h.dispatcher k n (by simpa [next, ho] using hpc)
    · by_cases hj : j = i
      · subst hj
        simp [next, ho] at ho'
      · have hkey := h.key_ne (by simpa [next, ho, hj] using ho') (k := o.key)
          (by simpa [hmine] using Ne.symm hj)
        simpa [next, ho, hkey] using h.client j o' (by simpa [next, ho, hj] using ho')

end Step

/-! ### Runs -/

section Runs

variable [DecidableEq ι]

omit [DecidableEq ι] in
lemma start_numbered : Numbered (start : State ι) :=
  ⟨by simp [start], by simp [start, Pc.entry]⟩

omit [DecidableEq ι] in
lemma start_locked : Locked (start : State ι) :=
  ⟨by simp [start], by simp [start]⟩

/-- The mutex does protect the call: an entry is erased under the iterator only before the
dispatcher has locked the mutex or after it has released it. -/
theorem pull_unlocked {as : List (Label ι)} (has : lts.Legal start as) {a : Label ι}
    (hpull : Pulls (lts.run start as) a) :
    ∃ k n, (lts.run start as).pc = .arrived k n ∨ (lts.run start as).pc = .released k n := by
  have h : Locked (lts.run start as) :=
    has.invariant start_locked fun _ _ hs ha => step_locked hs ha
  generalize lts.run start as = s at h hpull
  obtain ⟨i, k, n, rfl, ho, hentry⟩ := hpull
  have hheld : s.mutex k = some (.client i) := h.client i _ (Or.inl ho)
  refine ⟨k, n, ?_⟩
  cases hpc : s.pc with
  | idle => simp [hpc, Pc.entry] at hentry
  | arrived j m =>
    obtain ⟨rfl, rfl⟩ : j = k ∧ m = n := by simpa [hpc, Pc.entry] using hentry
    exact Or.inl rfl
  | released j m =>
    obtain ⟨rfl, rfl⟩ : j = k ∧ m = n := by simpa [hpc, Pc.entry] using hentry
    exact Or.inr rfl
  | locked j m =>
    obtain ⟨rfl, rfl⟩ : j = k ∧ m = n := by simpa [hpc, Pc.entry] using hentry
    have hmine := h.dispatcher j m (Or.inl hpc)
    simp [hmine] at hheld
  | called j m =>
    obtain ⟨rfl, rfl⟩ : j = k ∧ m = n := by simpa [hpc, Pc.entry] using hentry
    have hmine := h.dispatcher j m (Or.inr hpc)
    simp [hmine] at hheld

/-- Without a pull the iterator stays at an entry of the map. -/
lemma intact_of_noPull {as : List (Label ι)} (h : lts.Legal start as) (hpull : NoPull as) :
    Intact (lts.run start as) := by
  let p : List (Label ι) → State ι → Prop := fun as s => NoPull as → Intact s
  refine h.history (p := p) (fun _ => ?_) (fun as a _ ih ha hpull => ?_) hpull
  · simp [Intact, start, Pc.entry]
  · refine step_intact (ih fun pre b post has => ?_) ha (hpull as a [] rfl)
    exact hpull pre b (post ++ [a]) (by simp [has])

/-- From a lost node no use is safe. -/
lemma no_use_of_lost {s : State ι} {k : LoggerSink} {n : ℕ} {as : List (Label ι)}
    (h : Lost s k n) (hlegal : lts.Legal s as)
    (hsafe : ∀ pre a post, as = pre ++ a :: post → Uses a → Intact (lts.run s pre)) :
    ∀ a ∈ as, ¬ Uses a := by
  induction as generalizing s with
  | nil => simp
  | cons b bs ih =>
    have huse : ¬ Uses b := fun hb => h.gone (hsafe [] b bs rfl hb k n h.entry)
    have hrest := ih (step_lost h hlegal.1 huse) hlegal.2
      fun pre a post has hu => hsafe (b :: pre) a post (by simp [has]) hu
    intro a ha
    rcases List.mem_cons.mp ha with rfl | ha
    · exact huse
    · exact hrest a ha

/-- **When the dispatcher uses no removed entry.** For any number of clients: exactly if, up to
the last use the dispatcher makes of an entry, no client erases the one at which its iterator
stands. -/
theorem safe_iff (as : List (Label ι)) (h : lts.Legal start as) :
    Safe as ↔ ∀ pre b post, as = pre ++ b :: post → Uses b → NoPull pre := by
  constructor
  · rintro hsafe _ b post rfl huse pre a mid rfl hpull
    rw [List.append_assoc] at h hsafe
    obtain ⟨hpre, ha, hpost⟩ := (Lts.legal_append _ _ _ _).mp h
    have hnumbered : Numbered (lts.run start pre) :=
      hpre.invariant start_numbered fun _ _ hs hb => step_numbered hs hb
    obtain ⟨k, n, hlost⟩ := lost_of_pull hnumbered hpull
    refine no_use_of_lost hlost hpost (fun mid' c rest hmid hc => ?_) b (by simp) huse
    have hintact := hsafe (pre ++ a :: mid') c rest (by simp [← hmid]) hc
    rwa [Lts.run_append] at hintact
  · intro hpulls pre b post has huse
    have hpre : lts.Legal start pre := ((Lts.legal_append _ _ _ _).mp (has ▸ h)).1
    exact intact_of_noPull hpre (hpulls pre b post has huse)

end Runs

/-- A client initialises the console sink; later the dispatcher arrives at it. -/
def arrived : List (Label Unit) :=
  [.acquire () (.init .ealConsole), .act (), .release (), .begin]

theorem safe_iff_arrived :
    Safe (arrived ++ [.lock, .call, .unlock, .advance]) ↔
      ∀ pre b post, arrived ++ [.lock, .call, .unlock, .advance] = pre ++ b :: post →
        Uses b → NoPull pre :=
  safe_iff _ ⟨⟨rfl, rfl⟩, ⟨_, rfl⟩, ⟨_, rfl⟩, rfl, ⟨_, _, rfl, rfl⟩, ⟨_, _, rfl⟩, ⟨_, _, rfl⟩,
    ⟨_, _, rfl⟩, trivial⟩

/-- Before the dispatcher has locked the mutex, the client discards the sink. -/
theorem safe_fails_on_discard : ¬ ∀ as : List (Label Unit), lts.Legal start as → Safe as := by
  intro h
  let pre : List (Label Unit) :=
    arrived ++ [.acquire () (.discard .ealConsole), .act (), .release (), .lock]
  have hlegal : lts.Legal start (pre ++ [.call]) :=
    ⟨⟨rfl, rfl⟩, ⟨_, rfl⟩, ⟨_, rfl⟩, rfl, ⟨rfl, rfl⟩, ⟨_, rfl⟩, ⟨_, rfl⟩, ⟨_, _, rfl, rfl⟩,
      ⟨_, _, rfl⟩, trivial⟩
  have hintact := h _ hlegal pre .call [] rfl trivial
  exact absurd (hintact .ealConsole 0 rfl) (by decide)

end Ealogger.Removal
