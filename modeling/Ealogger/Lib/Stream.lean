import Mathlib.Data.List.Basic
import Mathlib.Logic.Function.Basic
import Mathlib.Tactic.Common

/-!
Calls that may throw, and buffered output streams over a file system whose device may fail.

A `Call` is the outcome of running a function: how control left it, and the state it left
behind, which a thrown exception does not undo. A `Stream` is a `basic_ofstream` opened for
appending: the file it holds open, the text it has buffered, whether `badbit` or `failbit` is
set, and whether both bits are in the exception mask. Every operation that reaches the device
is told the device's answer: whether it succeeds and how much of the buffer is written out on
this occasion.
-/

/-! ### Calls -/

/-- How control leaves a function: by returning, by an exception, or never, because an
exception met `noexcept`. -/
inductive Exit | returned | threw | terminated
  deriving DecidableEq, Repr

structure Call (σ : Type*) where
  exit : Exit
  state : σ

namespace Call

variable {σ τ : Type*}

def ret (s : σ) : Call σ := ⟨.returned, s⟩

/-- Sequencing: the rest is skipped unless the first part returned. -/
def andThen (c : Call σ) (f : σ → Call σ) : Call σ :=
  match c.exit with
  | .returned => f c.state
  | _ => c

/-- A body under `try { .. } catch (const std::exception &) {}`. -/
def catchAll (c : Call σ) : Call σ :=
  match c.exit with
  | .threw => ret c.state
  | _ => c

/-- A body that must not throw, such as a destructor's. -/
def noexcept (c : Call σ) : Call σ :=
  match c.exit with
  | .threw => ⟨.terminated, c.state⟩
  | _ => c

def map (f : σ → τ) (c : Call σ) : Call τ := ⟨c.exit, f c.state⟩

@[simp] lemma ret_exit (s : σ) : (ret s).exit = .returned := rfl
@[simp] lemma ret_state (s : σ) : (ret s).state = s := rfl
@[simp] lemma map_exit (f : σ → τ) (c : Call σ) : (c.map f).exit = c.exit := rfl
@[simp] lemma map_state (f : σ → τ) (c : Call σ) : (c.map f).state = f c.state := rfl

@[simp] lemma ret_andThen (s : σ) (f : σ → Call σ) : (ret s).andThen f = f s := rfl
@[simp] lemma catchAll_ret (s : σ) : (ret s).catchAll = ret s := rfl

@[simp] lemma catchAll_state (c : Call σ) : c.catchAll.state = c.state := by
  unfold catchAll
  split <;> rfl

@[simp] lemma noexcept_returned (c : Call σ) :
    c.noexcept.exit = .returned ↔ c.exit = .returned := by
  obtain ⟨e, s⟩ := c
  cases e <;> simp [noexcept]

lemma eq_ret {c : Call σ} (h : c.exit = .returned) : c = ret c.state := by
  obtain ⟨e, s⟩ := c
  exact congrArg (Call.mk · s) h

lemma noexcept_ne_threw (c : Call σ) : c.noexcept.exit ≠ .threw := by
  obtain ⟨e, s⟩ := c
  cases e <;> simp [noexcept]

lemma catchAll_of_ne_threw {c : Call σ} (h : c.exit ≠ .threw) : c.catchAll = c := by
  obtain ⟨e, s⟩ := c
  cases e <;> simp_all [catchAll]

lemma andThen_returned (c : Call σ) (f : σ → Call σ) :
    (c.andThen f).exit = .returned ↔ c.exit = .returned ∧ (f c.state).exit = .returned := by
  obtain ⟨e, s⟩ := c
  cases e <;> simp [andThen]

/-- Nothing is thrown out of a `catch`-all. -/
lemma catchAll_exit {c : Call σ} (h : c.exit ≠ .terminated) : c.catchAll.exit = .returned := by
  obtain ⟨e, s⟩ := c
  cases e <;> simp_all [catchAll, ret]

/-- A property of the state that every part keeps is kept by the sequence. -/
lemma andThen_state {p : σ → Prop} {c : Call σ} {f : σ → Call σ} (hc : p c.state)
    (hf : ∀ s, p s → p (f s).state) : p (c.andThen f).state := by
  obtain ⟨e, s⟩ := c
  cases e
  · exact hf s hc
  · exact hc
  · exact hc

/-- The rest of a sequence has run or it has not. -/
lemma andThen_cases (c : Call σ) (f : σ → Call σ) :
    (c.andThen f).state = c.state ∨ (c.andThen f).state = (f c.state).state := by
  obtain ⟨e, s⟩ := c
  cases e
  · exact Or.inr rfl
  · exact Or.inl rfl
  · exact Or.inl rfl

@[simp] lemma noexcept_state (c : Call σ) : c.noexcept.state = c.state := by
  unfold noexcept
  split <;> rfl

/-- A map that takes every part of one sequence to the part of another. -/
lemma map_andThen (g : σ → τ) {f : σ → Call σ} (f' : τ → Call τ)
    (h : ∀ s, (f s).map g = f' (g s)) (c : Call σ) :
    (c.andThen f).map g = (c.map g).andThen f' := by
  obtain ⟨e, s⟩ := c
  cases e with
  | returned => exact h s
  | threw => rfl
  | terminated => rfl

lemma map_catchAll (g : σ → τ) (c : Call σ) : c.catchAll.map g = (c.map g).catchAll := by
  obtain ⟨e, s⟩ := c
  cases e <;> rfl

lemma andThen_exit_ne_terminated {c : Call σ} {f : σ → Call σ} (hc : c.exit ≠ .terminated)
    (hf : ∀ s, (f s).exit ≠ .terminated) : (c.andThen f).exit ≠ .terminated := by
  obtain ⟨e, s⟩ := c
  cases e
  · exact hf s
  · exact hc
  · exact absurd rfl hc

end Call

/-! ### Files and streams -/

namespace Streams

variable {P α : Type}

/-- What a device answers when it is asked to write: whether it succeeds, and how many of the
pending symbols are written out on this occasion. -/
structure Answer where
  ok : Bool
  spill : ℕ

structure Disk (P α : Type) where
  /-- The file a path names. -/
  names : P → Option ℕ
  data : ℕ → List α
  /-- The number of the next file to be created. -/
  fresh : ℕ

/-- Where the files are, whatever is in them. -/
structure Directory (P : Type) where
  names : P → Option ℕ
  fresh : ℕ

namespace Directory

/-- The path names a file afterwards, a new one if there was none. -/
def create [DecidableEq P] (D : Directory P) (path : P) : Directory P :=
  match D.names path with
  | some _ => D
  | none => ⟨Function.update D.names path (some D.fresh), D.fresh + 1⟩

/-- No path names a file that is still to be created. -/
def Sound (D : Directory P) : Prop := ∀ path i, D.names path = some i → i < D.fresh

/-- Paths keep their files, and a path that gets one gets a new one. -/
structure Extends (D D' : Directory P) : Prop where
  fresh_le : D.fresh ≤ D'.fresh
  keeps : ∀ path i, D.names path = some i → D'.names path = some i
  new : ∀ path i, D'.names path = some i → D.names path = some i ∨ D.fresh ≤ i

/-- A path without a file has had none before. -/
lemma Extends.names_none {D D' : Directory P} (h : D.Extends D') {path : P}
    (hnone : D'.names path = none) : D.names path = none := by
  cases hi : D.names path with
  | none => rfl
  | some i => exact absurd (hnone.symm.trans (h.keeps path i hi)) (by simp)

lemma Extends.refl (D : Directory P) : D.Extends D :=
  ⟨Nat.le_refl _, fun _ _ => id, fun _ _ => Or.inl⟩

lemma Extends.trans {D₁ D₂ D₃ : Directory P} (h : D₁.Extends D₂) (h' : D₂.Extends D₃) :
    D₁.Extends D₃ := by
  refine ⟨Nat.le_trans h.fresh_le h'.fresh_le, fun q i hq => h'.keeps q i (h.keeps q i hq),
    fun q i hq => ?_⟩
  rcases h'.new q i hq with hq | hi
  · exact h.new q i hq
  · exact Or.inr (Nat.le_trans h.fresh_le hi)

variable [DecidableEq P] (D : Directory P) (path : P)

lemma create_names : ∃ i, (D.create path).names path = some i := by
  unfold create
  cases h : D.names path with
  | some i => exact ⟨i, h⟩
  | none => exact ⟨D.fresh, by simp⟩

lemma fresh_le_create : D.fresh ≤ (D.create path).fresh := by
  unfold create
  split
  · exact Nat.le_refl _
  · exact Nat.le_succ _

variable {D} in
lemma Sound.create (h : D.Sound) : (D.create path).Sound := by
  intro q i hi
  unfold Directory.create at hi ⊢
  split at hi
  · exact h q i hi
  · by_cases hq : q = path
    · subst hq
      have hfresh : D.fresh = i := by simpa using hi
      exact hfresh ▸ Nat.lt_succ_self _
    · simp only [Function.update_of_ne hq] at hi
      exact Nat.lt_succ_of_lt (h q i hi)

lemma create_extends : D.Extends (D.create path) := by
  refine ⟨fresh_le_create D path, fun q i hq => ?_, fun q i hq => ?_⟩
  · unfold create
    split
    · exact hq
    · next hnone =>
      have hne : q ≠ path := by
        rintro rfl
        simp [hq] at hnone
      simpa only [Function.update_of_ne hne] using hq
  · unfold create at hq
    split at hq
    · exact Or.inl hq
    · by_cases hpath : q = path
      · subst hpath
        have hfresh : D.fresh = i := by simpa using hq
        exact Or.inr (Nat.le_of_eq hfresh)
      · simp only [Function.update_of_ne hpath] at hq
        exact Or.inl hq

end Directory

namespace Disk

def dir (d : Disk P α) : Directory P := ⟨d.names, d.fresh⟩

/-- The contents of the file a path names; empty when there is none. -/
def contents (d : Disk P α) (path : P) : List α :=
  match d.names path with
  | some i => d.data i
  | none => []

def append (d : Disk P α) (i : ℕ) (t : List α) : Disk P α :=
  { d with data := Function.update d.data i (d.data i ++ t) }

/-- The path names a file afterwards, an empty one if there was none. -/
def create [DecidableEq P] (d : Disk P α) (path : P) : Disk P α :=
  match d.names path with
  | some _ => d
  | none =>
    { names := Function.update d.names path (some d.fresh)
      data := Function.update d.data d.fresh []
      fresh := d.fresh + 1 }

/-- `rename(2)`: the file keeps its number, so that a stream that is open on it stays so. -/
def rename [DecidableEq P] (d : Disk P α) (src dst : P) : Disk P α :=
  match d.names src with
  | none => d
  | some i =>
    if d.names dst = some i then d
    else { d with names := Function.update (Function.update d.names src none) dst (some i) }

@[simp] lemma append_data_self (d : Disk P α) (i : ℕ) (t : List α) :
    (d.append i t).data i = d.data i ++ t := by
  simp [append]

@[simp] lemma append_dir (d : Disk P α) (i : ℕ) (t : List α) : (d.append i t).dir = d.dir := rfl

lemma append_data_of_ne (d : Disk P α) {i j : ℕ} (h : j ≠ i) (t : List α) :
    (d.append i t).data j = d.data j := by
  simp [append, h]

@[simp] lemma create_dir [DecidableEq P] (d : Disk P α) (path : P) :
    (d.create path).dir = d.dir.create path := by
  unfold create Directory.create
  cases h : d.names path <;> simp [dir, h]

lemma create_names [DecidableEq P] (d : Disk P α) (path : P) :
    ∃ i, (d.create path).names path = some i := by
  have h := d.dir.create_names path
  rwa [← create_dir] at h

/-- A file that exists keeps its text. -/
lemma create_data [DecidableEq P] (d : Disk P α) (path : P) {i : ℕ} (hi : i < d.fresh) :
    (d.create path).data i = d.data i := by
  unfold create
  split
  · rfl
  · exact Function.update_of_ne (Nat.ne_of_lt hi) _ _

/-- A file that is created is empty. -/
lemma create_data_new [DecidableEq P] (d : Disk P α) (path : P) {i : ℕ} (hi : d.fresh ≤ i)
    (hi' : i < (d.create path).fresh) : (d.create path).data i = [] := by
  unfold create at hi' ⊢
  cases h : d.names path with
  | some j => simp only [h] at hi'; omega
  | none =>
    simp only [h] at hi'
    obtain rfl : i = d.fresh := by omega
    simp

@[simp] lemma rename_data [DecidableEq P] (d : Disk P α) (src dst : P) :
    (d.rename src dst).data = d.data := by
  unfold rename
  split
  · rfl
  · split <;> rfl

@[simp] lemma rename_fresh [DecidableEq P] (d : Disk P α) (src dst : P) :
    (d.rename src dst).fresh = d.fresh := by
  unfold rename
  split
  · rfl
  · split <;> rfl

lemma rename_sound [DecidableEq P] {d : Disk P α} (h : d.dir.Sound) (src dst : P) :
    (d.rename src dst).dir.Sound := by
  intro q j hj
  change (d.rename src dst).names q = some j at hj
  change j < (d.rename src dst).fresh
  rw [rename_fresh]
  unfold rename at hj
  split at hj
  · exact h q j hj
  · next i hi =>
    split at hj
    · exact h q j hj
    · simp only [Function.update_apply] at hj
      split at hj
      · obtain rfl := Option.some.inj hj
        exact h src i hi
      · split at hj
        · exact absurd hj (by simp)
        · exact h q j hj

@[simp] lemma create_contents [DecidableEq P] (d : Disk P α) (path : P) :
    (d.create path).contents path = d.contents path := by
  unfold create contents
  cases h : d.names path with
  | some i => simp [h]
  | none => simp

end Disk

/-- A `basic_ofstream`. `fail` says that `badbit` or `failbit` is set, `mask` that both are in
the exception mask. -/
structure OFStream (α : Type) where
  file : Option ℕ
  buffer : List α
  fail : Bool
  mask : Bool

namespace OFStream

/-- A stream that has never been opened. -/
def closed : OFStream α := ⟨none, [], false, false⟩

def isOpen (s : OFStream α) : Bool := s.file.isSome

@[simp] lemma closed_isOpen : (closed : OFStream α).isOpen = false := rfl

/-- `setstate(failbit)` or `setstate(badbit)`: throws if the bit is in the mask. -/
def setFail (s : OFStream α) (d : Disk P α) : Call (OFStream α × Disk P α) :=
  ⟨if s.mask then .threw else .returned, ({ s with fail := true }, d)⟩

/-- The first `n` symbols of the buffer reach the disk. -/
def spill (s : OFStream α) (n : ℕ) (d : Disk P α) : OFStream α × Disk P α :=
  match s.file with
  | some i => ({ s with buffer := s.buffer.drop n }, d.append i (s.buffer.take n))
  | none => (s, d)

/-- `open(path, out | app)`. A stream that is open already fails; success clears the error
bits. -/
def openApp [DecidableEq P] (s : OFStream α) (path : P) (ok : Bool) (d : Disk P α) :
    Call (OFStream α × Disk P α) :=
  if s.isOpen || !ok then s.setFail d
  else .ret ({ s with file := (d.create path).names path, buffer := [], fail := false },
    d.create path)

/-- `exceptions(badbit | failbit)`: throws at once if one of the bits is set. -/
def exceptions (s : OFStream α) (d : Disk P α) : Call (OFStream α × Disk P α) :=
  ⟨if s.fail then .threw else .returned, ({ s with mask := true }, d)⟩

/-- `operator<<`. A stream in a failed state writes nothing. When the device refuses, the
text is not taken into the buffer. -/
def insert (s : OFStream α) (text : List α) (a : Answer) (d : Disk P α) :
    Call (OFStream α × Disk P α) :=
  if s.fail || !s.isOpen then s.setFail d
  else if a.ok then .ret (spill { s with buffer := s.buffer ++ text } a.spill d)
  else setFail (s.spill a.spill d).1 (s.spill a.spill d).2

/-- `flush()`. On a stream in a failed state nothing is written; whether the sentry then
throws is left to the answer. -/
def flush (s : OFStream α) (a : Answer) (d : Disk P α) : Call (OFStream α × Disk P α) :=
  if a.ok then
    if s.fail then .ret (s, d) else .ret (s.spill s.buffer.length d)
  else if s.fail then s.setFail d
  else setFail (s.spill a.spill d).1 (s.spill a.spill d).2

/-- `close()`. The buffer is written out and the file closed, also when that fails. -/
def close (s : OFStream α) (a : Answer) (d : Disk P α) : Call (OFStream α × Disk P α) :=
  if !s.isOpen then s.setFail d
  else
    let n := if a.ok then s.buffer.length else a.spill
    let s' := { (s.spill n d).1 with file := none, buffer := [] }
    if a.ok then .ret (s', (s.spill n d).2) else setFail s' (s.spill n d).2

/-! ### Frame lemmas -/

section Frame

variable (s : OFStream α) (d : Disk P α)

@[simp] lemma setFail_file : (s.setFail d).state.1.file = s.file := rfl
@[simp] lemma setFail_mask : (s.setFail d).state.1.mask = s.mask := rfl

@[simp] lemma spill_file (n : ℕ) : (s.spill n d).1.file = s.file := by
  unfold spill; split <;> simp_all

@[simp] lemma spill_mask (n : ℕ) : (s.spill n d).1.mask = s.mask := by
  unfold spill; split <;> rfl

@[simp] lemma spill_fail (n : ℕ) : (s.spill n d).1.fail = s.fail := by
  unfold spill; split <;> rfl

@[simp] lemma insert_file (t : List α) (a : Answer) :
    (s.insert t a d).state.1.file = s.file := by
  unfold insert; split
  · rfl
  · split <;> simp

@[simp] lemma insert_mask (t : List α) (a : Answer) :
    (s.insert t a d).state.1.mask = s.mask := by
  unfold insert; split
  · rfl
  · split <;> simp

@[simp] lemma flush_file (a : Answer) : (s.flush a d).state.1.file = s.file := by
  unfold flush; split <;> split <;> simp

@[simp] lemma flush_mask (a : Answer) : (s.flush a d).state.1.mask = s.mask := by
  unfold flush; split <;> split <;> simp

@[simp] lemma close_file (a : Answer) : (s.close a d).state.1.file = none := by
  unfold close isOpen
  cases h : s.file with
  | none => simp [h]
  | some i => simp only [Option.isSome_some]; cases a.ok <;> simp [setFail]

/-- No operation of a stream ends the program. -/
lemma setFail_exit : (s.setFail d).exit ≠ .terminated := by
  unfold setFail; cases s.mask <;> simp

lemma openApp_exit [DecidableEq P] (path : P) (ok : Bool) :
    (s.openApp path ok d).exit ≠ .terminated := by
  unfold openApp; split
  · exact setFail_exit s d
  · simp

lemma exceptions_exit : (s.exceptions d).exit ≠ .terminated := by
  unfold exceptions; cases s.fail <;> simp

lemma insert_exit (t : List α) (a : Answer) : (s.insert t a d).exit ≠ .terminated := by
  unfold insert; split
  · exact setFail_exit s d
  · split
    · simp
    · exact setFail_exit _ _

lemma flush_exit (a : Answer) : (s.flush a d).exit ≠ .terminated := by
  unfold flush; split <;> split
  · simp
  · simp
  · exact setFail_exit _ _
  · exact setFail_exit _ _

/-! ### The error bits are set by the first failure and stay -/

lemma insert_fail (hopen : s.isOpen = true) (t : List α) (a : Answer) :
    (s.insert t a d).state.1.fail = (s.fail || !a.ok) := by
  unfold insert setFail
  cases s.fail <;> cases a.ok <;> simp [hopen]

lemma flush_fail (a : Answer) : (s.flush a d).state.1.fail = (s.fail || !a.ok) := by
  unfold flush setFail
  cases hf : s.fail <;> cases a.ok <;> simp [hf]

/-- A stream in a failed state takes nothing in. -/
lemma insert_of_fail (h : s.fail = true) (t : List α) (a : Answer) :
    (s.insert t a d).state = (s, d) := by
  obtain ⟨file, buffer, fail, mask⟩ := s
  obtain rfl : fail = true := h
  simp [insert, setFail]

lemma flush_of_fail (h : s.fail = true) (a : Answer) : (s.flush a d).state = (s, d) := by
  obtain ⟨file, buffer, fail, mask⟩ := s
  obtain rfl : fail = true := h
  unfold flush setFail
  cases a.ok <;> rfl

/-! ### With the mask on, the caller hears of every failure -/

lemma flush_returned_iff (hmask : s.mask = true) (a : Answer) :
    (s.flush a d).exit = .returned ↔ a.ok = true := by
  unfold flush setFail
  cases a.ok <;> cases s.fail <;> simp [hmask]

lemma close_returned_iff (hopen : s.isOpen = true) (hmask : s.mask = true) (a : Answer) :
    (s.close a d).exit = .returned ↔ a.ok = true := by
  unfold close setFail
  cases a.ok <;> simp [hopen, hmask]

/-! ### What a stream has taken in: the file and the buffer behind it -/

/-- The text of a file once the buffer of the stream has been written out. -/
def intake (s : OFStream α) (d : Disk P α) (i : ℕ) : List α :=
  d.data i ++ if s.file = some i then s.buffer else []

/-- The stream takes in `t`, wherever between buffer and disk, and nothing else changes. -/
structure Takes (s : OFStream α) (d : Disk P α) (s' : OFStream α) (d' : Disk P α)
    (t : List α) : Prop where
  file : s'.file = s.file
  fail : s'.fail = s.fail
  dir : d'.dir = d.dir
  intake : ∀ i, s'.intake d' i = s.intake d i ++ if s.file = some i then t else []

variable {s d}

lemma intake_self {i : ℕ} (h : s.file = some i) : s.intake d i = d.data i ++ s.buffer := by
  rw [intake, if_pos h]

lemma intake_of_buffer (h : s.buffer = []) (i : ℕ) : s.intake d i = d.data i := by
  simp [intake, h]

lemma intake_of_closed (h : s.file = none) (i : ℕ) : s.intake d i = d.data i := by
  simp [intake, h]

lemma isOpen_eq {s' : OFStream α} (h : s'.file = s.file) : s'.isOpen = s.isOpen := by
  unfold isOpen
  rw [h]

lemma Takes.trans {s₁ s₂ s₃ : OFStream α} {d₁ d₂ d₃ : Disk P α} {t u : List α}
    (h : Takes s₁ d₁ s₂ d₂ t) (h' : Takes s₂ d₂ s₃ d₃ u) : Takes s₁ d₁ s₃ d₃ (t ++ u) := by
  refine ⟨h'.file.trans h.file, h'.fail.trans h.fail, h'.dir.trans h.dir, fun i => ?_⟩
  rw [h'.intake, h.intake, h.file]
  by_cases hi : s₁.file = some i <;> simp [hi]

/-- Whatever part of the buffer is written out, nothing is taken in. -/
lemma spill_takes (n : ℕ) : Takes s d (s.spill n d).1 (s.spill n d).2 [] := by
  unfold spill
  cases hf : s.file with
  | none => exact ⟨by simp [hf], rfl, rfl, fun i => by simp⟩
  | some j =>
    refine ⟨by simp [hf], rfl, rfl, fun i => ?_⟩
    by_cases hi : i = j
    · subst hi
      simp [intake, hf]
    · simp [intake, hf, Ne.symm hi, Disk.append_data_of_ne _ hi]

lemma buffer_takes (t : List α) : Takes s d { s with buffer := s.buffer ++ t } d t := by
  refine ⟨rfl, rfl, rfl, fun i => ?_⟩
  by_cases hi : s.file = some i <;> simp [intake, hi]

lemma insert_takes (hopen : s.isOpen = true) (hf : s.fail = false) {a : Answer}
    (ha : a.ok = true) (t : List α) :
    ∃ s' d', s.insert t a d = .ret (s', d') ∧ Takes s d s' d' t := by
  refine ⟨_, _, by rw [insert, if_neg (by simp [hf, hopen]), if_pos ha], ?_⟩
  simpa using (buffer_takes t).trans (spill_takes (d := d) a.spill)

lemma flush_takes (hf : s.fail = false) {a : Answer} (ha : a.ok = true) :
    ∃ s' d', s.flush a d = .ret (s', d') ∧ Takes s d s' d' [] ∧
      (s.isOpen = true → s'.buffer = []) := by
  refine ⟨_, _, by rw [flush, if_pos ha, if_neg (by simp [hf])], spill_takes _, fun hopen => ?_⟩
  obtain ⟨i, hi⟩ := Option.isSome_iff_exists.mp hopen
  simp [spill, hi]

/-- A close that succeeds leaves on disk all that the stream has taken in. -/
lemma close_ok (hopen : s.isOpen = true) {a : Answer} (ha : a.ok = true) :
    ∃ s' d', s.close a d = .ret (s', d') ∧ s'.file = none ∧ s'.buffer = [] ∧
      d'.dir = d.dir ∧ ∀ i, d'.data i = s.intake d i := by
  have hspill := spill_takes (s := s) (d := d) s.buffer.length
  obtain ⟨j, hj⟩ := Option.isSome_iff_exists.mp hopen
  have hempty : (s.spill s.buffer.length d).1.buffer = [] := by simp [spill, hj]
  refine ⟨{ (s.spill s.buffer.length d).1 with file := none, buffer := [] }, _,
    by simp [close, hopen, ha], rfl, rfl, hspill.dir, fun i => ?_⟩
  rw [← intake_of_buffer hempty i, hspill.intake]
  simp

end Frame

end OFStream

end Streams
