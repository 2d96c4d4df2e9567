import Mathlib.Data.List.Basic
import Mathlib.Data.Set.Basic
import Mathlib.Logic.Function.Basic
import Mathlib.Tactic.Common

/-!
Threads that take mutexes, a table of objects with mutexes of their own, and deadlock.

The table has a mutex for each key; there may be other global mutexes; and every object has
some inside. A thread that takes a global mutex or that of a key must hold nothing. One that
takes a mutex inside an object must own the object: it has made it, or it holds the mutex of
the key under which the object is stored, or it has taken the object out of the table. The
inner mutexes may then be taken in any order.
-/

namespace Locks

/-! ### Deadlock -/

section Deadlock

variable {τ μ : Type*}

/-- Every thread of the set waits for a mutex held by a thread of the set. -/
def Deadlocked (held : τ → List μ) (wants : τ → Option μ) (S : Set τ) : Prop :=
  S.Nonempty ∧ ∀ t ∈ S, ∃ m, wants t = some m ∧ ∃ t' ∈ S, m ∈ held t'

/-- There is no deadlock if every thread holds nothing when it asks for a mutex that somebody
holds. -/
theorem not_deadlocked {held : τ → List μ} {wants : τ → Option μ}
    (h : ∀ t m, wants t = some m → (∃ t', m ∈ held t') → held t = []) (S : Set τ) :
    ¬ Deadlocked held wants S := by
  rintro ⟨⟨t, ht⟩, hS⟩
  obtain ⟨m, -, t', ht', hm⟩ := hS t ht
  -- the holder waits as well, but then it holds nothing
  obtain ⟨m', hwants, t'', -, hm'⟩ := hS t' ht'
  have hnone := h t' m' hwants ⟨t'', hm'⟩
  rw [hnone] at hm
  exact absurd hm List.not_mem_nil

end Deadlock

/-! ### Objects behind keyed mutexes -/

/-- The mutexes of the keys `κ`, further global ones `χ`, and those inside the objects. -/
inductive Mutex (κ χ φ : Type*)
  | key (k : κ)
  | global (x : χ)
  | inner (o : ℕ) (f : φ)
  deriving DecidableEq

variable {τ κ χ φ : Type*}

/-- What a thread that owns the objects `own` and holds `held` may ask for. -/
def Permits (own : List ℕ) (held : List (Mutex κ χ φ)) : Mutex κ χ φ → Prop
  | .inner o f => o ∈ own ∧ .inner o f ∉ held
  | _ => held = []

/-- No two threads hold the same mutex or own the same object; an object that is owned and in
the table is owned by the thread that holds the mutex of its key; a mutex inside an object is
held only by its owner; and the objects are stored under different keys. -/
structure Separated (held : τ → List (Mutex κ χ φ)) (own : τ → List ℕ) (table : κ → Option ℕ)
    (fresh : ℕ) : Prop where
  exclusive : ∀ t t' m, m ∈ held t → m ∈ held t' → t = t'
  owned : ∀ t t' o, o ∈ own t → o ∈ own t' → t = t'
  mapped : ∀ t o k, o ∈ own t → table k = some o → .key k ∈ held t
  inner : ∀ t o f, .inner o f ∈ held t → o ∈ own t
  injective : ∀ k k' o, table k = some o → table k' = some o → k = k'
  ownFresh : ∀ t o, o ∈ own t → o < fresh
  tableFresh : ∀ k o, table k = some o → o < fresh

variable {held : τ → List (Mutex κ χ φ)} {own : τ → List ℕ} {table : κ → Option ℕ} {fresh : ℕ}

lemma separated_start : Separated (fun _ => []) (fun _ => []) (fun _ => none) 0
    (τ := τ) (κ := κ) (χ := χ) (φ := φ) := by
  constructor <;> simp

/-- A mutex inside an object is free whenever it may be asked for. -/
theorem Separated.not_deadlocked (h : Separated held own table fresh)
    {wants : τ → Option (Mutex κ χ φ)}
    (hwants : ∀ t m, wants t = some m → Permits (own t) (held t) m) (S : Set τ) :
    ¬ Deadlocked held wants S := by
  refine Locks.not_deadlocked (fun t m hm hheld => ?_) S
  have hp := hwants t m hm
  cases m with
  | key k => exact hp
  | global x => exact hp
  | inner o f =>
    obtain ⟨ho, hnot⟩ := hp
    obtain ⟨t', ht'⟩ := hheld
    obtain rfl := h.owned t t' o ho (h.inner t' o f ht')
    exact absurd ht' hnot

section Update

variable [DecidableEq τ]

/-- Membership in what has been updated for one thread. -/
lemma mem_update {α : Type*} {g : τ → List α} {t t' : τ} {l : List α} {a : α} :
    a ∈ Function.update g t l t' ↔ (t' = t ∧ a ∈ l) ∨ (t' ≠ t ∧ a ∈ g t') := by
  by_cases ht : t' = t
  · subst ht
    simp
  · simp [ht]

theorem Separated.acquire (h : Separated held own table fresh) {t : τ} {m : Mutex κ χ φ}
    (hfree : ∀ t', m ∉ held t') (hp : Permits (own t) (held t) m) :
    Separated (Function.update held t (m :: held t)) own table fresh := by
  have hmem : ∀ t' m', m' ∈ Function.update held t (m :: held t) t' →
      (t' = t ∧ m' = m) ∨ m' ∈ held t' := by
    intro t' m' hm'
    rcases mem_update.mp hm' with ⟨rfl, hm'⟩ | ⟨-, hm'⟩
    · exact (List.mem_cons.mp hm').imp (fun h => ⟨rfl, h⟩) id
    · exact Or.inr hm'
  refine ⟨fun t₁ t₂ m' h₁ h₂ => ?_, h.owned, fun t' o k ho hk => ?_, fun t' o f ho => ?_,
    h.injective, h.ownFresh, h.tableFresh⟩
  · rcases hmem t₁ m' h₁ with ⟨rfl, rfl⟩ | h₁'
    · rcases hmem t₂ m' h₂ with ⟨rfl, -⟩ | h₂
      · rfl
      · exact absurd h₂ (hfree t₂)
    · rcases hmem t₂ m' h₂ with ⟨-, hm⟩ | h₂
      · exact absurd (hm ▸ h₁') (hfree t₁)
      · exact h.exclusive t₁ t₂ m' h₁' h₂
  · refine mem_update.mpr ?_
    by_cases ht : t' = t
    · exact Or.inl ⟨ht, List.mem_cons_of_mem m (ht ▸ h.mapped t' o k ho hk)⟩
    · exact Or.inr ⟨ht, h.mapped t' o k ho hk⟩
  · rcases hmem t' _ ho with ⟨rfl, rfl⟩ | ho
    · exact hp.1
    · exact h.inner t' o f ho

theorem Separated.releaseInner (h : Separated held own table fresh) {t : τ} {o : ℕ} {f : φ}
    {rest : List (Mutex κ χ φ)} (ht : held t = .inner o f :: rest) :
    Separated (Function.update held t rest) own table fresh := by
  have hmem : ∀ t' m, m ∈ Function.update held t rest t' → m ∈ held t' := by
    intro t' m hm
    rcases mem_update.mp hm with ⟨rfl, hrest⟩ | ⟨-, hm'⟩
    · exact ht ▸ List.mem_cons_of_mem _ hrest
    · exact hm'
  refine ⟨fun t₁ t₂ m h₁ h₂ => h.exclusive t₁ t₂ m (hmem _ _ h₁) (hmem _ _ h₂), h.owned,
    fun t' o' k ho hk => ?_, fun t' o' f' ho => h.inner t' o' f' (hmem _ _ ho), h.injective,
    h.ownFresh, h.tableFresh⟩
  have hkey := h.mapped t' o' k ho hk
  refine mem_update.mpr ?_
  by_cases hne : t' = t
  · subst hne
    rw [ht] at hkey
    exact Or.inl ⟨rfl, (List.mem_cons.mp hkey).resolve_left (by simp)⟩
  · exact Or.inr ⟨hne, hkey⟩

/-- With its last mutex a thread gives up the objects it owns. -/
theorem Separated.releaseLast (h : Separated held own table fresh) (t : τ) :
    Separated (Function.update held t []) (Function.update own t []) table fresh := by
  have hheld : ∀ t' m, m ∈ Function.update held t [] t' → t' ≠ t ∧ m ∈ held t' := by
    intro t' m hm
    rcases mem_update.mp hm with ⟨-, hm⟩ | hm
    · exact absurd hm List.not_mem_nil
    · exact hm
  have hown : ∀ t' o, o ∈ Function.update own t [] t' → t' ≠ t ∧ o ∈ own t' := by
    intro t' o ho
    rcases mem_update.mp ho with ⟨-, ho⟩ | ho
    · exact absurd ho List.not_mem_nil
    · exact ho
  refine ⟨fun t₁ t₂ m h₁ h₂ => h.exclusive t₁ t₂ m (hheld _ _ h₁).2 (hheld _ _ h₂).2,
    fun t₁ t₂ o h₁ h₂ => h.owned t₁ t₂ o (hown _ _ h₁).2 (hown _ _ h₂).2,
    fun t' o k ho hk => ?_, fun t' o f ho => ?_, h.injective,
    fun t' o ho => h.ownFresh t' o (hown _ _ ho).2, h.tableFresh⟩
  · obtain ⟨hne, ho⟩ := hown _ _ ho
    exact mem_update.mpr (Or.inr ⟨hne, h.mapped t' o k ho hk⟩)
  · obtain ⟨hne, ho⟩ := hheld _ _ ho
    exact mem_update.mpr (Or.inr ⟨hne, h.inner t' o f ho⟩)

/-- A thread comes to own an object that nobody else owns. -/
theorem Separated.own_cons (h : Separated held own table fresh) {t : τ} {o : ℕ}
    (hothers : ∀ t', t' ≠ t → o ∉ own t') (hkeys : ∀ k, table k = some o → .key k ∈ held t)
    (hfresh : o < fresh) :
    Separated held (Function.update own t (o :: own t)) table fresh := by
  have hown : ∀ t' o', o' ∈ Function.update own t (o :: own t) t' →
      (t' = t ∧ o' = o) ∨ o' ∈ own t' := by
    intro t' o' ho
    rcases mem_update.mp ho with ⟨rfl, ho⟩ | ⟨-, ho⟩
    · exact (List.mem_cons.mp ho).imp (fun h => ⟨rfl, h⟩) id
    · exact Or.inr ho
  refine ⟨h.exclusive, fun t₁ t₂ o' h₁ h₂ => ?_, fun t' o' k ho hk => ?_, fun t' o' f ho => ?_,
    h.injective, fun t' o' ho => ?_, h.tableFresh⟩
  · by_contra hne
    rcases hown _ _ h₁ with ⟨rfl, rfl⟩ | h₁'
    · rcases hown _ _ h₂ with ⟨rfl, -⟩ | h₂'
      · exact hne rfl
      · exact hothers t₂ (Ne.symm hne) h₂'
    · rcases hown _ _ h₂ with ⟨rfl, rfl⟩ | h₂'
      · exact hothers t₁ hne h₁'
      · exact hne (h.owned t₁ t₂ o' h₁' h₂')
  · rcases hown _ _ ho with ⟨rfl, rfl⟩ | ho
    · exact hkeys k hk
    · exact h.mapped t' o' k ho hk
  · refine mem_update.mpr ?_
    have ho' := h.inner t' o' f ho
    by_cases ht : t' = t
    · exact Or.inl ⟨ht, List.mem_cons_of_mem o (ht ▸ ho')⟩
    · exact Or.inr ⟨ht, ho'⟩
  · rcases hown _ _ ho with ⟨-, rfl⟩ | ho
    · exact hfresh
    · exact h.ownFresh t' o' ho

/-- The object under a key belongs to the thread that holds the mutex of the key. -/
theorem Separated.fetch (h : Separated held own table fresh) {t : τ} {k : κ} {o : ℕ}
    (hk : .key k ∈ held t) (ho : table k = some o) :
    Separated held (Function.update own t (o :: own t)) table fresh := by
  refine h.own_cons (fun t' hne ho' => ?_) (fun k' hk' => ?_) (h.tableFresh k o ho)
  · exact hne (h.exclusive t' t (.key k) (h.mapped t' o k ho' ho) hk)
  · rwa [h.injective k' k o hk' ho]

/-- A new object belongs to the thread that makes it. -/
theorem Separated.make (h : Separated held own table fresh) (t : τ) :
    Separated held (Function.update own t (fresh :: own t)) table (fresh + 1) := by
  have h' : Separated held own table (fresh + 1) :=
    ⟨h.exclusive, h.owned, h.mapped, h.inner, h.injective,
      fun t' o ho => Nat.lt_succ_of_lt (h.ownFresh t' o ho),
      fun k o ho => Nat.lt_succ_of_lt (h.tableFresh k o ho)⟩
  refine h'.own_cons (fun t' _ ho => ?_) (fun k hk => ?_) (Nat.lt_succ_self fresh)
  · exact absurd (h.ownFresh t' fresh ho) (Nat.lt_irrefl fresh)
  · exact absurd (h.tableFresh k fresh hk) (Nat.lt_irrefl fresh)

variable [DecidableEq κ]

/-- An entry is taken out of the table by a thread that nobody else can be looking over the
shoulder of; its object belongs to that thread from then on. -/
theorem Separated.remove (h : Separated held own table fresh) {t : τ} {k : κ}
    (hk : ∀ t', t' ≠ t → .key k ∉ held t') :
    Separated held (Function.update own t ((table k).toList ++ own t))
      (Function.update table k none) fresh := by
  have htable : ∀ k' o, Function.update table k none k' = some o → k' ≠ k ∧ table k' = some o := by
    intro k' o ho
    by_cases hk' : k' = k
    · subst hk'
      simp at ho
    · exact ⟨hk', by simpa [hk'] using ho⟩
  have h' : Separated held own (Function.update table k none) fresh :=
    ⟨h.exclusive, h.owned, fun t' o k' ho hk' => h.mapped t' o k' ho (htable _ _ hk').2, h.inner,
      fun k₁ k₂ o h₁ h₂ => h.injective k₁ k₂ o (htable _ _ h₁).2 (htable _ _ h₂).2, h.ownFresh,
      fun k' o ho => h.tableFresh k' o (htable _ _ ho).2⟩
  cases ho : table k with
  | none => simpa using h'
  | some o =>
    refine h'.own_cons (fun t' hne ho' => ?_) (fun k' hk' => ?_) (h.tableFresh k o ho)
    · exact hk t' hne (h.mapped t' o k ho' ho)
    · obtain ⟨hne, hk'⟩ := htable _ _ hk'
      exact absurd (h.injective k' k o hk' ho) hne

omit [DecidableEq τ] in
/-- A thread that holds nothing but the mutex of the key stores an object of its own under
it. -/
theorem Separated.insert (h : Separated held own table fresh) {t : τ} {k : κ} {o : ℕ}
    (ho : o ∈ own t) (hk : held t = [.key k]) (hnone : table k = none) :
    Separated held own (Function.update table k (some o)) fresh := by
  have hnew : ∀ k', table k' ≠ some o := by
    intro k' hk'
    have hkey := h.mapped t o k' ho hk'
    rw [hk, List.mem_singleton, Mutex.key.injEq] at hkey
    subst hkey
    simp [hnone] at hk'
  have htable : ∀ k' o', Function.update table k (some o) k' = some o' →
      (k' = k ∧ o' = o) ∨ table k' = some o' := by
    intro k' o' ho'
    by_cases hk' : k' = k
    · subst hk'
      exact Or.inl ⟨rfl, by simpa using ho'.symm⟩
    · exact Or.inr (by simpa [hk'] using ho')
  refine ⟨h.exclusive, h.owned, fun t' o' k' ho' hk' => ?_, h.inner, fun k₁ k₂ o' h₁ h₂ => ?_,
    h.ownFresh, fun k' o' hk' => ?_⟩
  · rcases htable _ _ hk' with ⟨rfl, rfl⟩ | hk'
    · rw [h.owned t' t o' ho' ho, hk]
      exact List.mem_cons_self
    · exact h.mapped t' o' k' ho' hk'
  · rcases htable _ _ h₁ with ⟨rfl, rfl⟩ | h₁'
    · rcases htable _ _ h₂ with ⟨rfl, -⟩ | h₂'
      · rfl
      · exact absurd h₂' (hnew k₂)
    · rcases htable _ _ h₂ with ⟨rfl, rfl⟩ | h₂'
      · exact absurd h₁' (hnew k₁)
      · exact h.injective k₁ k₂ o' h₁' h₂'
  · rcases htable _ _ hk' with ⟨-, rfl⟩ | hk'
    · exact h.ownFresh t o' ho
    · exact h.tableFresh k' o' hk'

end Update

end Locks
