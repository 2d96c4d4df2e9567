import Mathlib.Data.List.Forall2
import Mathlib.Data.List.Infix
import Mathlib.Tactic.Common

/-!
A backtracking matcher for regular expressions.

The matches of an expression at the front of a text come as a list, in the order in which a
backtracking matcher tries them: a repetition takes as many symbols as it can and gives them
back one at a time. Only classes of symbols are repeated. A match remembers what its groups
have matched.
-/

namespace Regex

inductive Expr (α : Type*)
  /-- The beginning of the text. -/
  | bol
  /-- One symbol of a class. -/
  | cls (p : α → Bool)
  /-- Any number of symbols of a class, the more the better. -/
  | star (p : α → Bool)
  | seq (e e' : Expr α)
  | group (n : ℕ) (e : Expr α)

structure Match (α : Type*) where
  text : List α
  groups : List (ℕ × List α)
  rest : List α
  deriving DecidableEq

variable {α : Type*}

def lit [DecidableEq α] (a : α) : Expr α := .cls (· = a)

def plus (p : α → Bool) : Expr α := .seq (.cls p) (.star p)

/-- The groups with what stands in them. -/
def Expr.groups : Expr α → List (ℕ × Expr α)
  | .seq e e' => e.groups ++ e'.groups
  | .group n e => (n, e) :: e.groups
  | _ => []

namespace Match

/-- One match right after the other. -/
def append (m m' : Match α) : Match α := ⟨m.text ++ m'.text, m.groups ++ m'.groups, m'.rest⟩

@[simp] lemma nil_append (s : List α) : append ⟨[], [], s⟩ = id := rfl

lemma append_assoc (m m' m'' : Match α) :
    (m.append m').append m'' = m.append (m'.append m'') := by
  simp [append]

/-- What a group has matched. -/
def str (m : Match α) (n : ℕ) : List α := (m.groups.lookup n).getD []

end Match

/-- The matches of a repetition, the longest first. -/
def repeats (p : α → Bool) : List α → List (Match α)
  | [] => [⟨[], [], []⟩]
  | a :: s =>
    if p a then (repeats p s).map (Match.append ⟨[a], [], s⟩) ++ [⟨[], [], a :: s⟩]
    else [⟨[], [], a :: s⟩]

/-- The matches at the front of a text, in the order in which they are tried. The flag says
whether the text begins here. -/
def run : Expr α → Bool → List α → List (Match α)
  | .bol, b, s => if b then [⟨[], [], s⟩] else []
  | .cls _, _, [] => []
  | .cls p, _, a :: s => if p a then [⟨[a], [], s⟩] else []
  | .star p, _, s => repeats p s
  | .seq e e', b, s =>
    (run e b s).flatMap fun m => (run e' (b && m.text.isEmpty) m.rest).map m.append
  | .group n e, b, s => (run e b s).map fun m => { m with groups := (n, m.text) :: m.groups }

/-- The first match, from the first position at which there is one. -/
def searchFrom (e : Expr α) (b : Bool) : List α → Option (Match α)
  | [] => (run e b []).head?
  | a :: s => (run e b (a :: s)).head?.or (searchFrom e false s)

def search (e : Expr α) (s : List α) : Option (Match α) := searchFrom e true s

/-- Some match of the expression, wherever it is looked for, takes this text. -/
def Takes (e : Expr α) (t : List α) : Prop := ∃ b s, ∃ m ∈ run e b s, m.text = t

/-- Every match takes at least one symbol. -/
def Consumes (e : Expr α) : Prop := ¬ Takes e []

variable {e e' : Expr α} {b : Bool} {s : List α} {m : Match α}

@[simp] lemma run_bol : run (.bol : Expr α) b s = if b then [⟨[], [], s⟩] else [] := rfl
@[simp] lemma run_cls_nil (p : α → Bool) : run (.cls p) b [] = [] := rfl
@[simp] lemma run_cls_cons (p : α → Bool) (a : α) :
    run (.cls p) b (a :: s) = if p a then [⟨[a], [], s⟩] else [] := rfl
@[simp] lemma run_star (p : α → Bool) : run (.star p) b s = repeats p s := rfl

@[simp] lemma run_seq : run (.seq e e') b s =
    (run e b s).flatMap fun m => (run e' (b && m.text.isEmpty) m.rest).map m.append := rfl

@[simp] lemma run_group (n : ℕ) : run (.group n e) b s =
    (run e b s).map fun m => { m with groups := (n, m.text) :: m.groups } := rfl

/-! ### All matches -/

lemma mem_repeats {p : α → Bool} (h : m ∈ repeats p s) : m.text ++ m.rest = s ∧ m.groups = [] := by
  induction s generalizing m with
  | nil =>
    obtain rfl := List.mem_singleton.mp h
    exact ⟨rfl, rfl⟩
  | cons a s ih =>
    rw [repeats] at h
    split at h
    · rcases List.mem_append.mp h with hmap | hlast
      · obtain ⟨m', hm', rfl⟩ := List.mem_map.mp hmap
        obtain ⟨htext, hgroups⟩ := ih hm'
        exact ⟨congrArg (a :: ·) htext, hgroups⟩
      · obtain rfl := List.mem_singleton.mp hlast
        exact ⟨rfl, rfl⟩
    · obtain rfl := List.mem_singleton.mp h
      exact ⟨rfl, rfl⟩

lemma mem_run_seq (h : m ∈ run (.seq e e') b s) :
    ∃ m₁ ∈ run e b s, ∃ b', ∃ m₂ ∈ run e' b' m₁.rest, m = m₁.append m₂ := by
  obtain ⟨m₁, h₁, hmap⟩ := List.mem_flatMap.mp h
  obtain ⟨m₂, h₂, rfl⟩ := List.mem_map.mp hmap
  exact ⟨m₁, h₁, _, m₂, h₂, rfl⟩

lemma mem_run_group {n : ℕ} (h : m ∈ run (.group n e) b s) :
    ∃ m' ∈ run e b s, m = { m' with groups := (n, m'.text) :: m'.groups } := by
  obtain ⟨m', h', rfl⟩ := List.mem_map.mp h
  exact ⟨m', h', rfl⟩

lemma mem_run_of_searchFrom (h : searchFrom e b s = some m) : ∃ b' s', m ∈ run e b' s' := by
  induction s generalizing b with
  | nil => exact ⟨b, [], List.mem_of_mem_head? h⟩
  | cons a s ih =>
    rcases Option.or_eq_some_iff.mp h with hhead | ⟨-, hrest⟩
    · exact ⟨b, a :: s, List.mem_of_mem_head? hhead⟩
    · exact ih hrest

/-- What the groups have matched are texts of matches of what stands in them. -/
lemma forall₂_groups (h : m ∈ run e b s) :
    List.Forall₂ (fun g g' => g.1 = g'.1 ∧ Takes g'.2 g.2) m.groups e.groups := by
  induction e generalizing b s m with
  | bol =>
    rw [run_bol] at h
    split at h
    · obtain rfl := List.mem_singleton.mp h
      exact .nil
    · simp at h
  | cls p =>
    cases s with
    | nil => simp at h
    | cons a s =>
      rw [run_cls_cons] at h
      split at h
      · obtain rfl := List.mem_singleton.mp h
        exact .nil
      · simp at h
  | star p =>
    rw [(mem_repeats h).2]
    exact .nil
  | seq e e' ih ih' =>
    obtain ⟨m₁, h₁, b', m₂, h₂, rfl⟩ := mem_run_seq h
    exact List.rel_append (ih h₁) (ih' h₂)
  | group n e ih =>
    obtain ⟨m', h', rfl⟩ := mem_run_group h
    exact .cons ⟨rfl, b, s, m', h', rfl⟩ (ih h')

lemma exists_of_lookup {β γ : Type*} {R : β → γ → Prop} {bs : List (ℕ × β)} {cs : List (ℕ × γ)}
    (h : List.Forall₂ (fun x y => x.1 = y.1 ∧ R x.2 y.2) bs cs) {n : ℕ} {c : γ}
    (hc : cs.lookup n = some c) : ∃ x, bs.lookup n = some x ∧ R x c := by
  induction h with
  | nil => simp at hc
  | @cons x y bs cs hxy _ ih =>
    rw [List.lookup_cons] at hc
    rw [List.lookup_cons, hxy.1]
    split at hc
    · cases hc
      exact ⟨x.2, rfl, hxy.2⟩
    · exact ih hc

lemma takes_str {n : ℕ} (h : m ∈ run e b s) (hn : e.groups.lookup n = some e') :
    Takes e' (m.str n) := by
  obtain ⟨t, ht, htakes⟩ := exists_of_lookup (R := fun t e' => Takes e' t) (forall₂_groups h) hn
  rwa [Match.str, ht]

lemma consumes_cls (p : α → Bool) : Consumes (.cls p) := by
  rintro ⟨b, s, m, h, htext⟩
  cases s with
  | nil => simp at h
  | cons a s =>
    rw [run_cls_cons] at h
    split at h
    · obtain rfl := List.mem_singleton.mp h
      simp at htext
    · simp at h

lemma Consumes.seq (h : Consumes e') (e : Expr α) : Consumes (.seq e e') := by
  rintro ⟨b, s, m, hm, htext⟩
  obtain ⟨m₁, -, b', m₂, h₂, rfl⟩ := mem_run_seq hm
  exact h ⟨b', m₁.rest, m₂, h₂, (List.append_eq_nil_iff.mp htext).2⟩

/-- **No empty group.** A group has matched something if what stands in it takes something. -/
lemma length_str_pos {n : ℕ} (h : search e s = some m) (hn : e.groups.lookup n = some e')
    (hc : Consumes e') : 0 < (m.str n).length := by
  obtain ⟨b', s', hm⟩ := mem_run_of_searchFrom h
  refine List.length_pos_iff.mpr fun hnil => hc ?_
  exact hnil ▸ takes_str hm hn

/-! ### The first match -/

lemma search_of_head? (h : (run e true s).head? = some m) : search e s = some m := by
  unfold search
  cases s with
  | nil => exact h
  | cons a s => rw [searchFrom, h, Option.some_or]

lemma head?_seq {m' : Match α} (h : (run e b s).head? = some m)
    (h' : (run e' (b && m.text.isEmpty) m.rest).head? = some m') :
    (run (.seq e e') b s).head? = some (m.append m') := by
  obtain ⟨ms, hms⟩ := List.head?_eq_some_iff.mp h
  obtain ⟨ms', hms'⟩ := List.head?_eq_some_iff.mp h'
  simp [hms, hms']

lemma head?_group (n : ℕ) (h : (run e b s).head? = some m) :
    (run (.group n e) b s).head? = some { m with groups := (n, m.text) :: m.groups } := by
  simp [h]

lemma head?_cls {p : α → Bool} {a : α} (h : p a = true) :
    (run (.cls p) b (a :: s)).head? = some ⟨[a], [], s⟩ := by
  simp [h]

/-- **Greed.** A repetition goes on until it comes upon something else. -/
lemma head?_star {p : α → Bool} {u v : List α} (hu : ∀ a ∈ u, p a = true)
    (hv : ∀ a ∈ v.head?, p a = false) :
    (run (.star p) b (u ++ v)).head? = some ⟨u, [], v⟩ := by
  induction u with
  | nil =>
    cases v with
    | nil => rfl
    | cons a v => simp [repeats, hv a rfl]
  | cons a u ih =>
    have hrest := ih fun x hx => hu x (List.mem_cons_of_mem a hx)
    rw [run_star] at hrest
    rw [List.cons_append, run_star, repeats, if_pos (hu a List.mem_cons_self)]
    obtain ⟨ms, hms⟩ := List.head?_eq_some_iff.mp hrest
    simp [hms, Match.append]

lemma head?_plus {p : α → Bool} {u v : List α} (hne : u ≠ []) (hu : ∀ a ∈ u, p a = true)
    (hv : ∀ a ∈ v.head?, p a = false) :
    (run (plus p) b (u ++ v)).head? = some ⟨u, [], v⟩ := by
  obtain ⟨a, u, rfl⟩ := List.exists_cons_of_ne_nil hne
  have hrest := fun x hx => hu x (List.mem_cons_of_mem a hx)
  exact head?_seq (head?_cls (hu a List.mem_cons_self)) (head?_star hrest hv)

lemma run_star_cls {p q : α → Bool} :
    run (.seq (.star p) (.cls q)) b s =
      (repeats p s).flatMap fun m => (run (.cls q) b m.rest).map m.append := by
  have hflag : ∀ b' (s' : List α), run (.cls q) b' s' = run (.cls q) b s' := by
    intro b' s'
    cases s' <;> rfl
  simp only [run_seq, run_star, hflag]

lemma run_star_cls_cons {p q : α → Bool} {a : α} :
    run (.seq (.star p) (.cls q)) b (a :: s) =
      (if p a then (run (.seq (.star p) (.cls q)) b s).map (Match.append ⟨[a], [], s⟩) else []) ++
        run (.cls q) b (a :: s) := by
  rw [run_star_cls, repeats]
  split
  · rw [run_star_cls, List.flatMap_append, List.flatMap_map, List.map_flatMap]
    congr 1
    · refine List.flatMap_congr fun m _ => ?_
      rw [List.map_map]
      exact List.map_congr_left fun m' _ => Match.append_assoc _ m m'
    · simp
  · simp

lemma run_star_cls_eq_nil {p q : α → Bool} (h : ∀ x ∈ s, q x = false) :
    run (.seq (.star p) (.cls q)) b s = [] := by
  induction s with
  | nil => rfl
  | cons a s ih =>
    rw [run_star_cls_cons, ih fun x hx => h x (List.mem_cons_of_mem a hx)]
    simp [h a List.mem_cons_self]

/-- **Backtracking.** A repetition before a symbol of a class gives back what stands behind
the last such symbol. -/
lemma head?_star_cls {p q : α → Bool} {u v : List α} {a : α} (hu : ∀ x ∈ u, p x = true)
    (ha : q a = true) (hv : ∀ x ∈ v, q x = false) :
    (run (.seq (.star p) (.cls q)) b (u ++ a :: v)).head? = some ⟨u ++ [a], [], v⟩ := by
  induction u with
  | nil =>
    rw [List.nil_append, run_star_cls_cons, run_star_cls_eq_nil hv]
    simp [ha]
  | cons x u ih =>
    have hrest := ih fun y hy => hu y (List.mem_cons_of_mem x hy)
    rw [List.cons_append, run_star_cls_cons, if_pos (hu x List.mem_cons_self), List.head?_append,
      List.head?_map, hrest]
    rfl

lemma head?_star_lit [DecidableEq α] {p : α → Bool} {u v : List α} {a : α}
    (hu : ∀ x ∈ u, p x = true) (hv : a ∉ v) :
    (run (.seq (.star p) (lit a)) b (u ++ a :: v)).head? = some ⟨u ++ [a], [], v⟩ := by
  refine head?_star_cls hu (decide_eq_true rfl) fun x hx => ?_
  exact decide_eq_false (ne_of_mem_of_not_mem hx hv)

end Regex
