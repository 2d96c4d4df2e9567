import Ealogger.Render

/-!
Templates and values that keep clear of each other.

When no value contains a percent sign and none stands immediately before a pattern of the
template, no pass of a sink can make or spoil an occurrence of another pattern. The passes
may then come in any order, and what they leave of the template is known exactly: the
patterns the `switch` has no case for.
-/

namespace Ealogger.Substitution

open Ealogger.Sink Ealogger.Render

/-- The loop over `vec_conv_patterns` with the values given; `none` is the default branch of
the `switch`. -/
def substitute (value : PatternType → Option Str) (msg : Str) (cp : ConversionPattern) : Str :=
  match value cp.ptype with
  | some v => replaceConversionPattern cp msg v
  | none => msg

/-- The cases of the `switch`: all patterns but the thread id. -/
def handled (value : PatternType → Str) : PatternType → Option Str
  | .threadid => none
  | ty => some (value ty)

/-- The loop of a sink, with the values a message gives to the patterns. -/
lemma applyPattern_eq_substitute (env : Env) (s : Sink) (m : LogMessage) :
    applyPattern env s m =
      substitute (handled fun ty => (patternValue env s m ty).getD []) := by
  funext msg cp
  unfold applyPattern substitute
  cases cp.ptype <;> rfl

/-- What stands for `%c`. -/
def valueAt (value : PatternType → Option Str) : Char → Option Str
  | 'd' => value .dt
  | 'f' => value .file
  | 'F' => value .fileAbsolute
  | 'l' => value .line
  | 'u' => value .func
  | 'h' => value .host
  | 't' => value .threadid
  | 'm' => value .msg
  | 's' => value .lvl
  | _ => none

section

variable {value : PatternType → Option Str} {T : Str}

lemma valueAt_letter {cp : ConversionPattern} (h : cp ∈ patternTable) :
    valueAt value (letter cp) = value cp.ptype := by
  simp only [patternTable, List.mem_cons, List.not_mem_nil, or_false] at h
  rcases h with rfl | rfl | rfl | rfl | rfl | rfl | rfl | rfl | rfl <;> rfl

/-- A letter with a value is the letter of a pattern. -/
lemma exists_of_valueAt {c : Char} (h : (valueAt value c).isSome) :
    ∃ cp ∈ patternTable, letter cp = c := by
  rw [← List.mem_map, patternTable_letters]
  unfold valueAt at h
  split at h
  all_goals first | decide | cases h

lemma substitute_eq {cp : ConversionPattern} (h : cp ∈ patternTable) (msg : Str) :
    substitute value msg cp = Text.pass '%' (valueAt value) msg (letter cp) := by
  have hp := patternTable_pattern h
  unfold substitute Text.pass
  rw [valueAt_letter h]
  cases value cp.ptype with
  | none => rfl
  | some v =>
    simp only
    rw [replaceConversionPattern_eq cp (by simp [hp]), hp]

lemma foldl_substitute {cps : List ConversionPattern} (h : ∀ cp ∈ cps, cp ∈ patternTable)
    (msg : Str) : cps.foldl (substitute value) msg =
      Text.passes '%' (valueAt value) (cps.map letter) msg := by
  induction cps generalizing msg with
  | nil => rfl
  | cons cp cps ih =>
    rw [List.foldl_cons, substitute_eq (h cp (by simp)), ih fun c hc => h c (by simp [hc])]
    rfl

/-- No value contains a percent sign. -/
def PercentFree (value : PatternType → Option Str) : Prop := ∀ ty v, value ty = some v → '%' ∉ v

/-- No percent sign stands immediately before a pattern with a value. -/
def Apart (value : PatternType → Option Str) (T : Str) : Prop :=
  ∀ cp ∈ patternTable, (value cp.ptype).isSome → Text.count ('%' :: cp.convPattern) T = 0

lemma PercentFree.inert (h : PercentFree value) : Text.Inert '%' (valueAt value) := by
  intro c v hc
  obtain ⟨cp, hcp, rfl⟩ := exists_of_valueAt (Option.isSome_iff_exists.mpr ⟨v, hc⟩)
  exact h cp.ptype v ((valueAt_letter hcp).symm.trans hc)

lemma Apart.spaced (h : Apart value T) : Text.Spaced '%' (valueAt value) T := by
  intro c hc
  obtain ⟨cp, hcp, rfl⟩ := exists_of_valueAt hc
  rw [← patternTable_pattern hcp]
  rw [valueAt_letter hcp] at hc
  exact h cp hcp hc

/-- The list of a template repeats no letter. -/
lemma nodup_convPatterns (T : Str) : ((convPatterns T).map letter).Nodup := by
  rw [convPatterns_letters]
  exact nodup_registered T

/-- **The passes commute.** For a template in which no percent sign stands immediately before
a handled pattern, and values without percent signs, the loop makes the same of the template
in whatever order it goes through the patterns. -/
theorem foldl_substitute_perm (T : Str) (value : PatternType → Str)
    (hT : ∀ cp ∈ patternTable, cp.ptype ≠ .threadid → Text.count ('%' :: cp.convPattern) T = 0)
    (hv : ∀ ty, ty ≠ .threadid → '%' ∉ value ty) (cps : List ConversionPattern)
    (hperm : cps.Perm (convPatterns T)) :
    cps.foldl (substitute (handled value)) T =
      (convPatterns T).foldl (substitute (handled value)) T := by
  have hfree : PercentFree (handled value) := by
    intro ty v h
    cases ty <;> simp only [handled, reduceCtorEq, Option.some.injEq] at h
    all_goals exact h ▸ hv _ (by simp)
  have hapart : Apart (handled value) T := by
    intro cp hcp h
    refine hT cp hcp fun hty => ?_
    simp [hty, handled] at h
  have htable : ∀ cp ∈ convPatterns T, cp ∈ patternTable := fun cp => List.mem_of_mem_filter
  rw [foldl_substitute htable, foldl_substitute fun cp hcp => htable cp (hperm.mem_iff.mp hcp)]
  exact Text.passes_perm rfl (nodup_convPatterns T) (hperm.map letter) (hfree.inert.restrict _)
    (hapart.spaced.restrict _)

end

/-- The severity may as well be put in before the message. -/
theorem foldl_substitute_perm_swapped :
    [⟨['%', 's'], .lvl⟩, ⟨['%', 'm'], .msg⟩].foldl
        (substitute (handled fun _ => "a".toList)) "%m 100% %s".toList =
      (convPatterns "%m 100% %s".toList).foldl
        (substitute (handled fun _ => "a".toList)) "%m 100% %s".toList :=
  foldl_substitute_perm _ _ (by decide) (fun _ _ => by decide) _ (by decide)

/-! ### What is left -/

/-- No documented pattern is left in the text, and for every pattern registered for the
template the `switch` has a case. -/
structure Complete (env : Env) (s : Sink) (m : LogMessage) : Prop where
  text : ∃ text, prepareLogMessage env s m = some text ∧
    ∀ c ∈ letters, Text.count ['%', c] text = 0
  handled : ∀ cp ∈ s.vecConvPatterns, (patternValue env s m cp.ptype).isSome

lemma valueOf_isSome (env : Env) (s : Sink) (m : LogMessage) {c : Char} (hc : c ∈ letters)
    (ht : c ≠ 't') : (valueOf env s m c).isSome := by
  simp only [letters, List.mem_cons, List.not_mem_nil, or_false] at hc
  rcases hc with rfl | rfl | rfl | rfl | rfl | rfl | rfl | rfl | rfl
  all_goals first | rfl | exact absurd rfl ht

section

variable {env : Env} {s : Sink} {m : LogMessage}

lemma inert_registered (hs : s.Fresh)
    (hv : ∀ cp ∈ s.vecConvPatterns, ∀ v, patternValue env s m cp.ptype = some v → '%' ∉ v) :
    Text.Inert '%' (Text.restrict (valueOf env s m) (registered s.msgTemplate)) := by
  intro c v hc
  obtain ⟨cp, hcp, rfl⟩ := List.mem_map.mp (fresh_letters hs ▸ Text.mem_of_restrict hc)
  refine hv cp hcp v ?_
  rw [patternTable_value env s m (mem_patternTable hs hcp)]
  exact Text.restrict_some hc

lemma spaced_registered (env : Env) (m : LogMessage)
    (hT : ∀ c ∈ letters, Text.count ['%', '%', c] s.msgTemplate = 0) :
    Text.Spaced '%' (Text.restrict (valueOf env s m) (registered s.msgTemplate))
      s.msgTemplate := by
  intro c hc
  obtain ⟨v, hv⟩ := Option.isSome_iff_exists.mp hc
  exact hT c (mem_registered.mp (Text.mem_of_restrict hv)).1

/-- The passes put in all values at once. -/
lemma prepareLogMessage_of_inert (hs : s.Fresh) (ha : s.accepts m = true)
    (hm : m.logType = .default)
    (hinert : Text.Inert '%' (Text.restrict (valueOf env s m) (registered s.msgTemplate)))
    (hspaced : Text.Spaced '%' (Text.restrict (valueOf env s m) (registered s.msgTemplate))
      s.msgTemplate) :
    prepareLogMessage env s m = some (Text.expand '%'
      (Text.restrict (valueOf env s m) (registered s.msgTemplate)) s.msgTemplate) := by
  have hnd := nodup_registered s.msgTemplate
  have hsteady := Text.steady_of_inert (valueOf_percent env s m) hnd hinert hspaced
  rw [prepareLogMessage_eq, if_pos ha, text, if_neg (by simp [hm]), patternText_eq env m hs,
    fresh_letters hs, Text.passes_eq_expand (valueOf_percent env s m) hnd hsteady]

/-- All registered letters but `t` have a value. -/
lemma valueOf_registered (h0 : Text.count ['%', 't'] s.msgTemplate = 0) {c : Char}
    (hc : c ∈ registered s.msgTemplate) : (valueOf env s m c).isSome := by
  obtain ⟨hl, hpos⟩ := mem_registered.mp hc
  refine valueOf_isSome env s m hl fun ht => ?_
  rw [ht, h0] at hpos
  exact absurd hpos (Nat.lt_irrefl 0)

/-- **What is left of a template**: the thread ids. In a template in which no percent sign
stands immediately before a documented pattern, with values without percent signs, every
documented pattern is substituted exactly if there is no `%t`. -/
theorem substituted_iff (env : Env) {s : Sink} {m : LogMessage} (hs : s.Fresh)
    (ha : s.accepts m = true) (hm : m.logType = .default)
    (hT : ∀ c ∈ letters, Text.count ['%', '%', c] s.msgTemplate = 0)
    (hv : ∀ cp ∈ s.vecConvPatterns, ∀ v, patternValue env s m cp.ptype = some v → '%' ∉ v) :
    Complete env s m ↔ Text.count ['%', 't'] s.msgTemplate = 0 := by
  have hinert := inert_registered hs hv
  have hspaced := spaced_registered env m hT
  have htext := prepareLogMessage_of_inert hs ha hm hinert hspaced
  have hcount := Text.count_expand
    (Text.restrict_none (valueOf_percent env s m) (registered s.msgTemplate)) hinert hspaced
  constructor
  · rintro ⟨⟨text, he, hnone⟩, -⟩
    have hleft := hnone 't' (by decide)
    rw [← Option.some.inj (htext.symm.trans he), hcount, Text.restrict_none rfl _] at hleft
    exact hleft
  · intro h0
    refine ⟨⟨_, htext, fun c hc => ?_⟩, fun cp hcp => ?_⟩
    · rw [hcount]
      by_cases hmem : c ∈ registered s.msgTemplate
      · rw [Text.restrict, if_pos hmem, if_pos (valueOf_registered h0 hmem)]
      · have hzero : Text.count ['%', c] s.msgTemplate = 0 := by
          by_contra hne
          exact hmem (mem_registered.mpr ⟨hc, Nat.pos_of_ne_zero hne⟩)
        simp [hzero]
    · rw [patternTable_value env s m (mem_patternTable hs hcp)]
      exact valueOf_registered h0 (fresh_letters hs ▸ List.mem_map_of_mem hcp)

end

lemma forall_letters {p : Char → Prop} : (∀ c ∈ letters, p c) ↔
    p 'd' ∧ p 'f' ∧ p 'F' ∧ p 'l' ∧ p 'u' ∧ p 'h' ∧ p 't' ∧ p 'm' ∧ p 's' := by
  simp [letters]

theorem substituted_iff_hello :
    Complete Env.bare (Sink.new "%s: 100 % %m".toList [] true .ealDebug)
        (infoMessage "hello".toList) ↔
      Text.count ['%', 't'] "%s: 100 % %m".toList = 0 :=
  substituted_iff Env.bare (Sink.new_fresh _ _ _ _) (by decide) (by decide)
    (forall_letters.mpr (by decide)) (by
      intro cp hcp v hv
      have hcps : cp = ⟨['%', 'm'], .msg⟩ ∨ cp = ⟨['%', 's'], .lvl⟩ := by
        have hlist : (Sink.new "%s: 100 % %m".toList [] true .ealDebug).vecConvPatterns =
            [⟨['%', 'm'], .msg⟩, ⟨['%', 's'], .lvl⟩] := by decide
        rw [hlist] at hcp
        simpa using hcp
      rcases hcps with rfl | rfl <;> obtain rfl := Option.some.inj hv <;> decide)

/-- The thread id is registered and never replaced. -/
theorem substituted_fails_on_thread_id :
    ¬ ∀ (env : Env) (s : Sink) (m : LogMessage), s.Fresh → s.accepts m = true →
      m.logType = .default → (∀ c ∈ letters, Text.count ['%', '%', c] s.msgTemplate = 0) →
      (∀ cp ∈ s.vecConvPatterns, ∀ v, patternValue env s m cp.ptype = some v → '%' ∉ v) →
      Complete env s m := by
  intro h
  have hvec : (Sink.new "%t".toList [] true .ealDebug).vecConvPatterns =
      [⟨['%', 't'], .threadid⟩] := by decide
  have hcomplete := h Env.bare (Sink.new "%t".toList [] true .ealDebug)
    (infoMessage "hello".toList) (Sink.new_fresh _ _ _ _) (by decide) (by decide)
    (forall_letters.mpr (by decide)) (by
      intro cp hcp v hv
      rw [hvec] at hcp
      obtain rfl := List.mem_singleton.mp hcp
      cases hv)
  obtain ⟨text, htext, hleft⟩ := hcomplete.text
  obtain rfl : "%t".toList = text := Option.some.inj htext
  exact absurd (hleft 't' (by decide)) (by decide)

end Ealogger.Substitution
