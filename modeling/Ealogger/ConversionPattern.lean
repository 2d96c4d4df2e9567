import Ealogger.Lib.Text
import Ealogger.LogMessage

/-!
`conversion_pattern.h`: a conversion pattern and the loop that replaces it.

The loop searches from a position that moves past each inserted value, in a string that
grows or shrinks under it. It is shown to cut the string at the occurrences of the pattern
and to join the pieces with the value.
-/

namespace Ealogger

/-- `ConversionPattern::PATTERN_TYPE`. -/
inductive PatternType | dt | file | fileAbsolute | line | func | host | threadid | msg | lvl
  deriving DecidableEq, Repr

structure ConversionPattern where
  convPattern : Str
  ptype : PatternType
  deriving DecidableEq

/-- `msg.replace(pos, len, v)`. -/
def replaceAt (msg : Str) (pos len : ℕ) (v : Str) : Str :=
  msg.take pos ++ v ++ msg.drop (pos + len)

/-- The `while` loop of `replace_conversion_pattern`, with fuel; `none` means that the fuel
ran out before `find` answered `npos`. -/
def replaceLoop (p newValue : Str) : ℕ → Str → ℕ → Option Str
  | 0, _, _ => none
  | fuel + 1, msg, posInString =>
    match Text.find msg p posInString with
    | none => some msg
    | some pos => replaceLoop p newValue fuel (replaceAt msg pos p.length newValue)
        (pos + newValue.length)

/-- Every turn consumes a character of the original string, so the loop ends within one turn
more than there are characters; see `replaceLoop_eq`. -/
def replaceConversionPattern (cp : ConversionPattern) (msg newValue : Str) : Str :=
  (replaceLoop cp.convPattern newValue (msg.length + 1) msg 0).getD msg

lemma find_append (done rest p : Str) :
    Text.find (done ++ rest) p done.length = Text.findAt p rest done.length := by
  simp [Text.find]

/-- What `find` finds in a string that is finished before the position: the first occurrence
in the rest. -/
lemma find_some {done rest p : Str} {pos : ℕ}
    (h : Text.find (done ++ rest) p done.length = some pos) :
    ∃ x tail, rest = x ++ (p ++ tail) ∧ pos = (done ++ x).length ∧
      ∀ l < x.length, ¬ p <+: rest.drop l := by
  rw [find_append] at h
  obtain ⟨x, tail, hrest, hpos, hfirst⟩ := Text.findAt_some h
  exact ⟨x, tail, hrest, by rw [hpos, List.length_append], hfirst⟩

lemma replaceAt_append (done x p tail v : Str) :
    replaceAt (done ++ (x ++ (p ++ tail))) (done ++ x).length p.length v =
      (done ++ x ++ v) ++ tail := by
  rw [replaceAt, ← List.append_assoc done x, List.take_left, List.drop_length_add_append,
    List.drop_left]

/-- The loop invariant: what stands before the search position is finished, what stands from
it on is untouched. The induction is on the fuel; the rest of the string shrinks by at least
one character a turn. -/
theorem replaceLoop_eq {p : Str} (hp : p ≠ []) (v : Str) (fuel : ℕ) (done rest : Str)
    (hfuel : rest.length < fuel) :
    replaceLoop p v fuel (done ++ rest) done.length = some (done ++ Text.replaceAll p v rest) := by
  induction fuel generalizing done rest with
  | zero => omega
  | succ fuel ih =>
    rw [replaceLoop]
    cases hfind : Text.find (done ++ rest) p done.length with
    | none =>
      rw [find_append] at hfind
      have hskip := Text.replaceAll_skip v rest [] fun l _ => by
        simpa using Text.findAt_none hfind l
      simp only [List.append_nil, Text.replaceAll_nil] at hskip
      simp [hskip]
    | some pos =>
      obtain ⟨x, tail, rfl, rfl, hfirst⟩ := find_some hfind
      have hlen : 0 < p.length := List.length_pos_iff.mpr hp
      have hshort : tail.length < fuel := by
        simp only [List.length_append] at hfuel
        omega
      have hstart : (done ++ x).length + v.length = (done ++ x ++ v).length :=
        (List.length_append ..).symm
      simp only [replaceAt_append done x p tail v, hstart]
      rw [ih _ tail hshort, Text.replaceAll_skip v x _ hfirst, Text.replaceAll_append hp]
      simp only [List.append_assoc]

/-- **The loop replaces all occurrences**: the pieces of the string between them are joined
with the new value. -/
theorem replaceConversionPattern_eq (cp : ConversionPattern) (hp : cp.convPattern ≠ [])
    (msg newValue : Str) :
    replaceConversionPattern cp msg newValue = Text.replaceAll cp.convPattern newValue msg := by
  have h := replaceLoop_eq hp newValue (msg.length + 1) [] msg (Nat.lt_succ_self _)
  simp only [List.nil_append, List.length_nil] at h
  rw [replaceConversionPattern, h, Option.getD_some]

/-! ### What the loop looks at -/

/-- The strings and positions that `find` is called with. -/
inductive Searched (p newValue msg : Str) : Str → ℕ → Prop
  | start : Searched p newValue msg msg 0
  | turn {text : Str} {start pos : ℕ} (h : Searched p newValue msg text start)
      (hfind : Text.find text p start = some pos) :
      Searched p newValue msg (replaceAt text pos p.length newValue) (pos + newValue.length)

/-- The loop looks only at what is left of the original string. -/
lemma Searched.invariant {p newValue msg text : Str} {start : ℕ} (hp : p ≠ [])
    (h : Searched p newValue msg text start) :
    ∃ done rest, text = done ++ rest ∧ start = done.length ∧ rest <:+ msg ∧
      done ++ Text.replaceAll p newValue rest = Text.replaceAll p newValue msg := by
  induction h with
  | start => exact ⟨[], msg, rfl, rfl, List.suffix_rfl, rfl⟩
  | turn _ hfind ih =>
    obtain ⟨done, rest, rfl, rfl, hsuffix, heq⟩ := ih
    obtain ⟨x, tail, rfl, rfl, hfirst⟩ := find_some hfind
    refine ⟨done ++ x ++ newValue, tail, replaceAt_append done x p tail newValue,
      (List.length_append ..).symm, ?_, ?_⟩
    · have htail : tail <:+ x ++ (p ++ tail) := ⟨x ++ p, List.append_assoc x p tail⟩
      exact htail.trans hsuffix
    · rw [← heq, Text.replaceAll_skip newValue x _ hfirst, Text.replaceAll_append hp]
      simp only [List.append_assoc]

/-- The loop ends with the pieces of the string between the occurrences of the pattern, taken
from left to right, joined with the new value; and it never looks at what it has inserted. -/
structure ReplacesAll (cp : ConversionPattern) (msg newValue : Str) : Prop where
  terminates : ∀ fuel, msg.length < fuel →
    replaceLoop cp.convPattern newValue fuel msg 0 = some (replaceConversionPattern cp msg newValue)
  cut : ∃! pieces, Text.Cut cp.convPattern msg pieces
  joined : ∀ pieces, Text.Cut cp.convPattern msg pieces →
    replaceConversionPattern cp msg newValue = newValue.intercalate pieces
  /-- There is one occurrence fewer than there are pieces. -/
  length : ∀ pieces, Text.Cut cp.convPattern msg pieces →
    ((replaceConversionPattern cp msg newValue).length : ℤ) = msg.length +
      ((pieces.length : ℤ) - 1) * ((newValue.length : ℤ) - cp.convPattern.length)
  /-- What stands before the position is final, and the rest has not been touched. -/
  untouched : ∀ text start, Searched cp.convPattern newValue msg text start →
    ∃ done rest, text = done ++ rest ∧ start = done.length ∧ rest <:+ msg ∧
      done <+: replaceConversionPattern cp msg newValue

/-- **Replace-all**, for any pattern but the empty one, any string and any value. -/
theorem replacesAll (cp : ConversionPattern) (hp : cp.convPattern ≠ []) (msg newValue : Str) :
    ReplacesAll cp msg newValue := by
  have heq := replaceConversionPattern_eq cp hp msg newValue
  have hjoined : ∀ pieces, Text.Cut cp.convPattern msg pieces →
      replaceConversionPattern cp msg newValue = newValue.intercalate pieces := by
    intro pieces hcut
    rw [heq, Text.replaceAll, hcut.eq_split hp]
  refine ⟨fun fuel hfuel => ?_, ?_, hjoined, fun pieces hcut => ?_, fun text start h => ?_⟩
  · have hloop := replaceLoop_eq hp newValue fuel [] msg hfuel
    rw [heq]
    exact hloop
  · exact ⟨_, Text.cut_split hp msg, fun pieces hcut => hcut.eq_split hp⟩
  · rw [hjoined pieces hcut]
    exact hcut.length_intercalate newValue
  · obtain ⟨done, rest, htext, hstart, hsuffix, hdone⟩ := h.invariant hp
    exact ⟨done, rest, htext, hstart, hsuffix, heq ▸ hdone ▸ List.prefix_append done _⟩

example : replaceConversionPattern ⟨"aa".toList, .msg⟩ "aaaaa".toList "baab".toList =
    "baabbaaba".toList := by decide

/-- A pattern that overlaps itself, and a value that contains it. -/
theorem replacesAll_overlapping :
    ReplacesAll ⟨"aa".toList, .msg⟩ "aaaaa".toList "baab".toList :=
  replacesAll _ (by decide) _ _

end Ealogger
