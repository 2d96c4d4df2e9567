import Ealogger.Utility
import Mathlib.Data.List.Infix

/-!
`get_file_name` returns the last component of a path.

The position of the last separator comes as a `size_t`, and where there is none the function
relies on the largest one plus one being zero.
-/

namespace Ealogger.FileName

/-- What `get_file_name` looks for. -/
def separators : Str := ['/', '\\']

/-- A `std::string`: its length is a `size_t`. -/
structure StdString where
  chars : Str
  length_le : chars.length ≤ npos

/-- The path `s` is the directory `d`, with its separator, followed by the file name `f`. -/
structure Splits (s d f : Str) : Prop where
  append : d ++ f = s
  plain : ∀ c ∈ f, c ∉ separators
  ended : d = [] ∨ ∃ c ∈ separators, [c] <:+ d

structure LastComponent (s : Str) : Prop where
  splits : ∃ d, Splits s d (getFileName s)
  unique : ∀ d f d' f', Splits s d f → Splits s d' f' → d = d' ∧ f = f'
  /-- `substr` does not throw. -/
  position : (findLastOf s separators + 1) % 2 ^ 64 ≤ s.length
  idempotent : getFileName (getFileName s) = getFileName s
  after : ∀ a c b, c ∈ separators → s = a ++ c :: b → getFileName s = getFileName b

/-! ### The last separator -/

lemma findLastOf_concat (s set : Str) (c : Char) (hc : c ∈ set) :
    findLastOf (s ++ [c]) set = s.length := by
  simp [findLastOf, List.findIdx?_cons, hc]

lemma findLastOf_concat_of_notMem (s set : Str) (c : Char) (hc : c ∉ set) :
    findLastOf (s ++ [c]) set = findLastOf s set := by
  simp only [findLastOf, List.reverse_append, List.reverse_singleton, List.singleton_append,
    List.findIdx?_cons, hc, decide_false, Bool.false_eq_true, if_false, List.length_append,
    List.length_singleton]
  cases s.reverse.findIdx? (· ∈ set) with
  | none => rfl
  | some i => simp only [Option.map_some]; omega

/-- Either there is no separator, or the position is that of the last one. -/
lemma findLastOf_cases (s set : Str) :
    ((∀ c ∈ s, c ∉ set) ∧ findLastOf s set = npos) ∨
      ∃ a c b, s = a ++ c :: b ∧ c ∈ set ∧ (∀ x ∈ b, x ∉ set) ∧ findLastOf s set = a.length := by
  induction s using List.reverseRecOn with
  | nil => exact Or.inl ⟨by simp, rfl⟩
  | append_singleton s x ih =>
    by_cases hx : x ∈ set
    · exact Or.inr ⟨s, x, [], rfl, hx, by simp, findLastOf_concat s set x hx⟩
    · rw [findLastOf_concat_of_notMem s set x hx]
      rcases ih with ⟨hnone, hpos⟩ | ⟨a, c, b, rfl, hc, hb, hpos⟩
      · refine Or.inl ⟨fun c hmem => ?_, hpos⟩
        rcases List.mem_append.mp hmem with hs | hlast
        · exact hnone c hs
        · rwa [List.mem_singleton.mp hlast]
      · refine Or.inr ⟨a, c, b ++ [x], by simp, hc, fun y hmem => ?_, hpos⟩
        rcases List.mem_append.mp hmem with hs | hlast
        · exact hb y hs
        · rwa [List.mem_singleton.mp hlast]

/-- `substr` begins after the last separator, or at the front. -/
lemma getFileName_cases {s : Str} (hs : s.length ≤ npos) :
    ((∀ c ∈ s, c ∉ separators) ∧ (findLastOf s separators + 1) % 2 ^ 64 = 0) ∨
      ∃ a c b, s = a ++ c :: b ∧ c ∈ separators ∧ (∀ x ∈ b, x ∉ separators) ∧
        (findLastOf s separators + 1) % 2 ^ 64 = a.length + 1 := by
  rcases findLastOf_cases s separators with ⟨hnone, hpos⟩ | ⟨a, c, b, rfl, hc, hb, hpos⟩
  · -- the largest `size_t` and one
    exact Or.inl ⟨hnone, by rw [hpos]; rfl⟩
  · refine Or.inr ⟨a, c, b, rfl, hc, hb, ?_⟩
    simp only [npos, List.length_append, List.length_cons] at hs
    rw [hpos]
    exact Nat.mod_eq_of_lt (by omega)

lemma exists_splits {s : Str} (hs : s.length ≤ npos) : ∃ d, Splits s d (getFileName s) := by
  have hdrop : getFileName s = s.drop ((findLastOf s separators + 1) % 2 ^ 64) := rfl
  rw [hdrop]
  rcases getFileName_cases hs with ⟨hnone, hpos⟩ | ⟨a, c, b, rfl, hc, hb, hpos⟩
  · rw [hpos, List.drop_zero]
    exact ⟨[], rfl, hnone, Or.inl rfl⟩
  · have hname : (a ++ c :: b).drop (a.length + 1) = b := by
      rw [List.drop_length_add_append]
      rfl
    rw [hpos, hname]
    exact ⟨a ++ [c], by simp, hb, Or.inr ⟨c, hc, List.suffix_append a [c]⟩⟩

/-! ### Uniqueness -/

/-- No directory reaches into the file name of another decomposition. -/
lemma Splits.eq_of_append {s d f x f' : Str} (h : Splits s d f) (h' : Splits s (d ++ x) f')
    (hf : f = x ++ f') : x = [] := by
  rcases List.eq_nil_or_concat' x with rfl | ⟨y, e, rfl⟩
  · rfl
  · rcases h'.ended with hnil | ⟨c, hc, hlast⟩
    · simp at hnil
    · -- the last character would be a separator and part of the file name
      have hce : c = e := by
        rw [← List.append_assoc] at hlast
        obtain ⟨t, ht⟩ := hlast
        exact List.singleton_inj.mp (List.append_inj' ht rfl).2
      exact absurd hc (h.plain c (by simp [hf, hce]))

lemma Splits.unique {s d f d' f' : Str} (h : Splits s d f) (h' : Splits s d' f') :
    d = d' ∧ f = f' := by
  rcases List.append_eq_append_iff.mp (h.append.trans h'.append.symm) with
    ⟨x, rfl, hf⟩ | ⟨x, rfl, hf⟩
  · obtain rfl := h.eq_of_append h' hf
    simpa using hf
  · obtain rfl := h'.eq_of_append h hf
    simpa using hf.symm

lemma Splits.getFileName_eq {s d f : Str} (h : Splits s d f) (hs : s.length ≤ npos) :
    getFileName s = f :=
  (exists_splits hs).elim fun _ h' => (h'.unique h).2

/-- A directory in front, with its separator, goes to the directory. -/
lemma Splits.cons {b d f : Str} (h : Splits b d f) (a : Str) {c : Char} (hc : c ∈ separators) :
    Splits (a ++ c :: b) (a ++ c :: d) f := by
  refine ⟨by simp [← h.append], h.plain, Or.inr ?_⟩
  rcases h.ended with rfl | ⟨e, he, hlast⟩
  · exact ⟨c, hc, List.suffix_append a [c]⟩
  · exact ⟨e, he, hlast.trans ((List.suffix_cons c d).trans (List.suffix_append a _))⟩

/-- **The last component.** For every string, with separators of either kind anywhere or
nowhere. -/
theorem getFileName_lastComponent (s : StdString) : LastComponent s.chars := by
  obtain ⟨s, hs⟩ := s
  obtain ⟨d, hd⟩ := exists_splits hs
  refine ⟨⟨d, hd⟩, fun d f d' f' h h' => h.unique h', ?_, ?_, ?_⟩
  · rcases getFileName_cases hs with ⟨-, hpos⟩ | ⟨a, c, b, rfl, -, -, hpos⟩
    · rw [hpos]
      exact Nat.zero_le _
    · rw [hpos]
      simp
  · have hlen : (getFileName s).length ≤ npos := by
      have happend := congrArg List.length hd.append
      rw [List.length_append] at happend
      omega
    have hsame : Splits (getFileName s) [] (getFileName s) := ⟨rfl, hd.plain, Or.inl rfl⟩
    exact hsame.getFileName_eq hlen
  · rintro a c b hc rfl
    have hlen : b.length ≤ npos := by
      simp only [List.length_append, List.length_cons] at hs
      omega
    obtain ⟨e, he⟩ := exists_splits hlen
    exact (he.cons a hc).getFileName_eq hs

end Ealogger.FileName
