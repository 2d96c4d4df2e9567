import Ealogger.Lib.Regex

/-!
Which match a backtracking matcher comes upon first.

A match takes the repetitions of its expression so and so often, and these numbers determine it.
The matcher tries the matches in the lexicographic order of the numbers, the greatest first, and
it leaves none out. A search finds the first match at the first position that has one.
-/

namespace Regex

variable {α : Type*}

/-- A match of the expression at the front of a text, with the number of symbols that each
repetition takes. -/
inductive Matches : Expr α → Bool → List α → List ℕ → Match α → Prop
  | bol (s : List α) : Matches .bol true s [] ⟨[], [], s⟩
  | cls {p : α → Bool} {a : α} (h : p a = true) (b : Bool) (s : List α) :
    Matches (.cls p) b (a :: s) [] ⟨[a], [], s⟩
  | star {p : α → Bool} {t : List α} (h : ∀ a ∈ t, p a = true) (b : Bool) (s : List α) :
    Matches (.star p) b (t ++ s) [t.length] ⟨t, [], s⟩
  | seq {e e' : Expr α} {b : Bool} {s : List α} {ns ns' : List ℕ} {m m' : Match α}
    (h : Matches e b s ns m) (h' : Matches e' (b && m.text.isEmpty) m.rest ns' m') :
    Matches (.seq e e') b s (ns ++ ns') (m.append m')
  | group (n : ℕ) {e : Expr α} {b : Bool} {s : List α} {ns : List ℕ} {m : Match α}
    (h : Matches e b s ns m) :
    Matches (.group n e) b s ns { m with groups := (n, m.text) :: m.groups }

/-- Where the numbers differ for the first time, these are greater. -/
inductive Ahead : List ℕ → List ℕ → Prop
  | head {n n' : ℕ} (h : n' < n) (ns ns' : List ℕ) : Ahead (n :: ns) (n' :: ns')
  | tail (n : ℕ) {ns ns' : List ℕ} (h : Ahead ns ns') : Ahead (n :: ns) (n :: ns')

/-- What the matcher tries, with the numbers. -/
def choices : Expr α → Bool → List α → List (List ℕ × Match α)
  | .bol, b, s => (run .bol b s).map ([], ·)
  | .cls p, b, s => (run (.cls p) b s).map ([], ·)
  | .star p, _, s => (repeats p s).map fun m => ([m.text.length], m)
  | .seq e e', b, s => (choices e b s).flatMap fun x =>
    (choices e' (b && x.2.text.isEmpty) x.2.rest).map fun y => (x.1 ++ y.1, x.2.append y.2)
  | .group n e, b, s => (choices e b s).map fun x =>
    (x.1, { x.2 with groups := (n, x.2.text) :: x.2.groups })

variable {e : Expr α} {b : Bool} {s : List α} {m : Match α}

/-! ### The order -/

lemma not_ahead_nil (ns : List ℕ) : ¬ Ahead ns [] := nofun

lemma ahead_cons_iff {n n' : ℕ} {ns ns' : List ℕ} :
    Ahead (n :: ns) (n' :: ns') ↔ n' < n ∨ n' = n ∧ Ahead ns ns' := by
  constructor
  · rintro (h | h)
    · exact .inl ‹_›
    · exact .inr ⟨rfl, ‹_›⟩
  · rintro (h | ⟨rfl, h⟩)
    · exact .head h ns ns'
    · exact .tail n' h

lemma Ahead.asymm {ns ns' : List ℕ} (h : Ahead ns ns') : ¬ Ahead ns' ns := by
  induction h with
  | head h ns ns' =>
    rw [ahead_cons_iff]
    omega
  | tail n h ih =>
    rw [ahead_cons_iff]
    rintro (h' | ⟨-, h'⟩)
    · exact lt_irrefl n h'
    · exact ih h'

lemma Ahead.append {ns ns' : List ℕ} (h : Ahead ns ns') (l l' : List ℕ) :
    Ahead (ns ++ l) (ns' ++ l') := by
  induction h with
  | head h ns ns' => exact .head h _ _
  | tail n _ ih => exact .tail n ih

lemma Ahead.append_left {l l' : List ℕ} (h : Ahead l l') (ns : List ℕ) :
    Ahead (ns ++ l) (ns ++ l') := by
  induction ns with
  | nil => exact h
  | cons n ns ih => exact .tail n ih

/-! ### The matches of each expression -/

lemma not_matches_bol {ns : List ℕ} : ¬ Matches .bol false s ns m := nofun

lemma matches_seq_iff {e' : Expr α} {ns : List ℕ} :
    Matches (.seq e e') b s ns m ↔ ∃ ns₁ m₁, Matches e b s ns₁ m₁ ∧
      ∃ ns₂ m₂, Matches e' (b && m₁.text.isEmpty) m₁.rest ns₂ m₂ ∧
        ns = ns₁ ++ ns₂ ∧ m = m₁.append m₂ := by
  constructor
  · rintro ⟨⟩
    exact ⟨_, _, ‹_›, _, _, ‹_›, rfl, rfl⟩
  · rintro ⟨ns₁, m₁, h₁, ns₂, m₂, h₂, rfl, rfl⟩
    exact .seq h₁ h₂

lemma matches_group_iff {n : ℕ} {ns : List ℕ} :
    Matches (.group n e) b s ns m ↔
      ∃ m', Matches e b s ns m' ∧ m = { m' with groups := (n, m'.text) :: m'.groups } := by
  constructor
  · rintro ⟨⟩
    exact ⟨_, ‹_›, rfl⟩
  · rintro ⟨m', h, rfl⟩
    exact .group n h

lemma matches_cls_iff {p : α → Bool} {ns : List ℕ} :
    Matches (.cls p) b s ns m ↔
      ∃ a, p a = true ∧ ∃ r, s = a :: r ∧ ns = [] ∧ m = ⟨[a], [], r⟩ := by
  constructor
  · rintro ⟨⟩
    exact ⟨_, ‹_›, _, rfl, rfl, rfl⟩
  · rintro ⟨a, ha, r, rfl, rfl, rfl⟩
    exact .cls ha b r

lemma matches_lit [DecidableEq α] (a : α) (b : Bool) (s : List α) :
    Matches (lit a) b (a :: s) [] ⟨[a], [], s⟩ :=
  .cls (p := fun x => decide (x = a)) (decide_eq_true rfl) b s

lemma matches_star_lit [DecidableEq α] {p : α → Bool} {t : List α} (h : ∀ x ∈ t, p x = true)
    (a : α) (b : Bool) (s : List α) :
    Matches (.seq (.star p) (lit a)) b (t ++ a :: s) [t.length] ⟨t ++ [a], [], s⟩ :=
  .seq (.star h b (a :: s)) (matches_lit a _ s)

lemma matches_plus {p : α → Bool} {t : List α} (hne : t ≠ []) (h : ∀ x ∈ t, p x = true)
    (b : Bool) (s : List α) : Matches (plus p) b (t ++ s) [t.length - 1] ⟨t, [], s⟩ := by
  obtain ⟨a, t, rfl⟩ := List.exists_cons_of_ne_nil hne
  obtain ⟨ha, ht⟩ := List.forall_mem_cons.mp h
  exact .seq (.cls ha b (t ++ s)) (.star ht _ s)

lemma matches_lit_iff [DecidableEq α] {a : α} {ns : List ℕ} :
    Matches (lit a) b s ns m ↔ ∃ r, s = a :: r ∧ ns = [] ∧ m = ⟨[a], [], r⟩ := by
  constructor
  · intro h
    obtain ⟨x, hx, hrest⟩ := matches_cls_iff.mp h
    obtain rfl := of_decide_eq_true hx
    exact hrest
  · rintro ⟨r, rfl, rfl, rfl⟩
    exact matches_lit a b r

lemma matches_star_iff {p : α → Bool} {ns : List ℕ} :
    Matches (.star p) b s ns m ↔
      ∃ t, (∀ a ∈ t, p a = true) ∧ ∃ r, s = t ++ r ∧ ns = [t.length] ∧ m = ⟨t, [], r⟩ := by
  constructor
  · rintro ⟨⟩
    exact ⟨_, ‹_›, _, rfl, rfl, rfl⟩
  · rintro ⟨t, ht, r, rfl, rfl, rfl⟩
    exact .star ht b r

lemma matches_star_lit_iff [DecidableEq α] {p : α → Bool} {a : α} {ns : List ℕ} :
    Matches (.seq (.star p) (lit a)) b s ns m ↔
      ∃ t, (∀ x ∈ t, p x = true) ∧
        ∃ r, s = t ++ a :: r ∧ ns = [t.length] ∧ m = ⟨t ++ [a], [], r⟩ := by
  constructor
  · intro h
    obtain ⟨ns₁, m₁, h₁, ns₂, m₂, h₂, rfl, rfl⟩ := matches_seq_iff.mp h
    obtain ⟨t, ht, r, rfl, rfl, rfl⟩ := matches_star_iff.mp h₁
    obtain ⟨r, rfl, rfl, rfl⟩ := matches_lit_iff.mp h₂
    exact ⟨t, ht, r, rfl, rfl, rfl⟩
  · rintro ⟨t, ht, r, rfl, rfl, rfl⟩
    exact matches_star_lit ht a b r

lemma matches_plus_iff {p : α → Bool} {ns : List ℕ} :
    Matches (plus p) b s ns m ↔
      ∃ t, t ≠ [] ∧ (∀ a ∈ t, p a = true) ∧
        ∃ r, s = t ++ r ∧ ns = [t.length - 1] ∧ m = ⟨t, [], r⟩ := by
  constructor
  · intro h
    obtain ⟨ns₁, m₁, h₁, ns₂, m₂, h₂, rfl, rfl⟩ := matches_seq_iff.mp h
    obtain ⟨a, ha, r, rfl, rfl, rfl⟩ := matches_cls_iff.mp h₁
    obtain ⟨t, ht, r, rfl, rfl, rfl⟩ := matches_star_iff.mp h₂
    exact ⟨a :: t, List.cons_ne_nil a t, List.forall_mem_cons.mpr ⟨ha, ht⟩, r, rfl, rfl, rfl⟩
  · rintro ⟨t, hne, ht, r, rfl, rfl, rfl⟩
    exact matches_plus hne ht b r

/-! ### All matches -/

lemma mem_repeats_iff {p : α → Bool} :
    m ∈ repeats p s ↔ ∃ t, (∀ a ∈ t, p a = true) ∧ ∃ r, s = t ++ r ∧ m = ⟨t, [], r⟩ := by
  induction s generalizing m with
  | nil =>
    rw [repeats, List.mem_singleton]
    constructor
    · rintro rfl
      exact ⟨[], by simp, [], rfl, rfl⟩
    · rintro ⟨t, -, r, h, rfl⟩
      obtain ⟨rfl, rfl⟩ := List.nil_eq_append_iff.mp h
      rfl
  | cons a s ih =>
    -- nothing is taken, or the first symbol and a match of the rest
    have hcases : (∃ t, (∀ a ∈ t, p a = true) ∧ ∃ r, a :: s = t ++ r ∧ m = ⟨t, [], r⟩) ↔
        m = ⟨[], [], a :: s⟩ ∨
          p a = true ∧ ∃ m' ∈ repeats p s, Match.append ⟨[a], [], s⟩ m' = m := by
      constructor
      · rintro ⟨t, ht, r, heq, rfl⟩
        cases t with
        | nil => exact .inl (by rw [heq, List.nil_append])
        | cons x t =>
          obtain ⟨rfl, rfl⟩ := List.cons_eq_cons.mp heq
          exact .inr ⟨ht _ List.mem_cons_self, ⟨t, [], r⟩,
            ih.mpr ⟨t, fun y hy => ht y (List.mem_cons_of_mem _ hy), r, rfl, rfl⟩, rfl⟩
      · rintro (rfl | ⟨ha, m', hm', rfl⟩)
        · exact ⟨[], by simp, a :: s, rfl, rfl⟩
        · obtain ⟨t, ht, r, rfl, rfl⟩ := ih.mp hm'
          exact ⟨a :: t, List.forall_mem_cons.mpr ⟨ha, ht⟩, r, rfl, rfl⟩
    rw [hcases, repeats]
    split <;> rename_i ha <;> simp [ha, or_comm]

lemma pairwise_repeats (p : α → Bool) (s : List α) :
    (repeats p s).Pairwise fun m m' => m'.text.length < m.text.length := by
  induction s with
  | nil => exact List.pairwise_singleton _ _
  | cons a s ih =>
    rw [repeats]
    split
    · refine List.pairwise_append.mpr ⟨List.pairwise_map.mpr ?_, List.pairwise_singleton _ _, ?_⟩
      · exact ih.imp fun h => by simpa [Match.append] using h
      · intro m hm m' hm'
        obtain ⟨m, -, rfl⟩ := List.mem_map.mp hm
        obtain rfl := List.mem_singleton.mp hm'
        simp [Match.append]
    · exact List.pairwise_singleton _ _

section Choices

attribute [local simp] choices

lemma run_eq_map_choices (e : Expr α) (b : Bool) (s : List α) :
    run e b s = (choices e b s).map Prod.snd := by
  induction e generalizing b s with
  | bol => simp [Function.comp_def]
  | cls p => simp [Function.comp_def]
  | star p => simp [Function.comp_def]
  | seq e e' ih ih' => simp [ih, ih', List.flatMap_map, List.map_flatMap, Function.comp_def]
  | group n e ih => simp [ih, Function.comp_def]

lemma mem_choices_iff {ns : List ℕ} : (ns, m) ∈ choices e b s ↔ Matches e b s ns m := by
  induction e generalizing b s ns m with
  | bol =>
    cases b with
    | false =>
      simp only [choices, run_bol]
      exact ⟨fun h => by simp at h, fun h => absurd h not_matches_bol⟩
    | true =>
      simp only [choices, run_bol, List.map_singleton, if_true, List.mem_singleton, Prod.mk.injEq]
      constructor
      · rintro ⟨rfl, rfl⟩
        exact .bol s
      · rintro ⟨⟩
        exact ⟨rfl, rfl⟩
  | cls p =>
    rw [matches_cls_iff]
    cases s with
    | nil => simp
    | cons a s =>
      by_cases ha : p a = true
      · simp [ha]
      · simp [ha]
  | star p =>
    rw [matches_star_iff]
    simp only [choices, List.mem_map, Prod.mk.injEq]
    constructor
    · rintro ⟨m, hm, rfl, rfl⟩
      obtain ⟨t, ht, r, rfl, rfl⟩ := mem_repeats_iff.mp hm
      exact ⟨t, ht, r, rfl, rfl, rfl⟩
    · rintro ⟨t, ht, r, rfl, rfl, rfl⟩
      exact ⟨_, mem_repeats_iff.mpr ⟨t, ht, r, rfl, rfl⟩, rfl, rfl⟩
  | seq e e' ih ih' =>
    rw [matches_seq_iff]
    simp only [choices, List.mem_flatMap, List.mem_map, Prod.mk.injEq, Prod.exists, ih, ih',
      eq_comm]
  | group n e ih =>
    rw [matches_group_iff]
    simp only [choices, List.mem_map, Prod.mk.injEq, Prod.exists, ih]
    constructor
    · rintro ⟨ns, m, h, rfl, rfl⟩
      exact ⟨m, h, rfl⟩
    · rintro ⟨m, h, rfl⟩
      exact ⟨ns, m, h, rfl, rfl⟩

/-- **Lexicographic order.** -/
lemma pairwise_choices (e : Expr α) (b : Bool) (s : List α) :
    (choices e b s).Pairwise fun x y => Ahead x.1 y.1 := by
  induction e generalizing b s with
  | bol =>
    cases b with
    | false => exact .nil
    | true => exact List.pairwise_singleton _ _
  | cls p =>
    cases s with
    | nil => exact .nil
    | cons a s =>
      simp only [choices, run_cls_cons]
      split
      · exact List.pairwise_singleton _ _
      · exact .nil
  | star p =>
    refine List.pairwise_map.mpr ((pairwise_repeats p s).imp fun h => ?_)
    exact .head h [] []
  | seq e e' ih ih' =>
    refine List.pairwise_flatMap.mpr ⟨fun x _ => ?_, ?_⟩
    · exact List.pairwise_map.mpr ((ih' _ _).imp fun h => h.append_left x.1)
    · refine (ih b s).imp fun hxy z hz w hw => ?_
      obtain ⟨z, -, rfl⟩ := List.mem_map.mp hz
      obtain ⟨w, -, rfl⟩ := List.mem_map.mp hw
      exact hxy.append z.1 w.1
  | group n e ih => exact List.pairwise_map.mpr (ih b s)

end Choices

/-! ### The first match -/

/-- All other matches come later. -/
def First (e : Expr α) (b : Bool) (s : List α) (ns : List ℕ) (m : Match α) : Prop :=
  Matches e b s ns m ∧ ∀ ns' m', Matches e b s ns' m' → ns' = ns ∧ m' = m ∨ Ahead ns ns'

/-- The expression matches at the beginning of the text only. -/
def Anchored (e : Expr α) : Prop := ∀ s ns m, ¬ Matches e false s ns m

lemma run_eq_nil_iff : run e b s = [] ↔ ∀ ns m, ¬ Matches e b s ns m := by
  rw [run_eq_map_choices, List.map_eq_nil_iff, List.eq_nil_iff_forall_not_mem]
  simp only [Prod.forall, mem_choices_iff]

/-- **The first match is the greediest.** -/
lemma head?_run_iff : (run e b s).head? = some m ↔ ∃ ns, First e b s ns m := by
  have hall := pairwise_choices e b s
  rw [run_eq_map_choices, List.head?_map, Option.map_eq_some_iff]
  constructor
  · rintro ⟨⟨ns, m⟩, hhead, rfl⟩
    obtain ⟨l, hl⟩ := List.head?_eq_some_iff.mp hhead
    refine ⟨ns, mem_choices_iff.mp (List.mem_of_mem_head? hhead), fun ns' m' h => ?_⟩
    have hmem := mem_choices_iff.mpr h
    rw [hl] at hmem hall
    rcases List.mem_cons.mp hmem with heq | hmem
    · exact .inl (Prod.mk.inj heq)
    · exact .inr ((List.pairwise_cons.mp hall).1 _ hmem)
  · rintro ⟨ns, h, hfirst⟩
    have hmem := mem_choices_iff.mpr h
    obtain ⟨⟨ns', m'⟩, l, hl⟩ := List.exists_cons_of_ne_nil (List.ne_nil_of_mem hmem)
    refine ⟨(ns', m'), by rw [hl]; rfl, ?_⟩
    have hmem' : (ns', m') ∈ choices e b s := hl ▸ List.mem_cons_self
    rcases hfirst ns' m' (mem_choices_iff.mp hmem') with ⟨-, rfl⟩ | hahead
    · rfl
    · -- what stands in front of the list would be behind the match
      rw [hl] at hmem hall
      rcases List.mem_cons.mp hmem with heq | hmem
      · exact (Prod.mk.inj heq).2.symm
      · exact absurd ((List.pairwise_cons.mp hall).1 _ hmem) hahead.asymm

lemma searchFrom_of_anchored (h : Anchored e) (s : List α) : searchFrom e false s = none := by
  have hnil : ∀ s, run e false s = [] := fun s => run_eq_nil_iff.mpr (h s)
  induction s with
  | nil => rw [searchFrom, hnil, List.head?_nil]
  | cons a s ih => rw [searchFrom, hnil, ih, List.head?_nil, Option.or_none]

lemma search_of_anchored (h : Anchored e) (s : List α) : search e s = (run e true s).head? := by
  cases s with
  | nil => rfl
  | cons a s => rw [search, searchFrom, searchFrom_of_anchored h, Option.or_none]

end Regex
