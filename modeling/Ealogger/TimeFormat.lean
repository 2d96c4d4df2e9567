import Ealogger.Sink
import Mathlib.Data.List.TakeWhile

/-!
What becomes of a date that is formatted into a buffer of eighty bytes.

`format_time_to_string` does not look at what `strftime` returns. When the expansion and its
terminating NUL do not fit, `strftime` leaves the buffer indeterminate, and that is what stands
for `%d` in the message.
-/

namespace Ealogger.TimeFormat

/-- The same system, with something else in the buffers that `strftime` gave up on. -/
def withJunk (env : Env) (junk : Str → Int → Str) : Env := { env with indeterminate := junk }

/-- The full expansion is returned, and stands for `%d`, whatever the buffer held. -/
structure Faithful (env : Env) (t : Int) (timeFormat : Str) (timeinfo : Tm) : Prop where
  formatted : ∀ junk, formatTimeToString (withJunk env junk) t timeFormat =
    env.expansion timeFormat timeinfo
  inserted : ∀ junk (s : Sink) (m : LogMessage), s.datetimePattern = timeFormat → m.t = t →
    s.patternValue (withJunk env junk) m .dt = some (env.expansion timeFormat timeinfo)

/-- A C string ends at the first NUL. -/
lemma cString_append_nul (s w : Str) : cString (s ++ nul :: w) = cString s := by
  induction s with
  | nil => simp [cString]
  | cons c s ih =>
    by_cases hc : c = nul
    · simp [cString, hc]
    · simpa [cString, hc] using ih

lemma cString_eq_self_iff {s : Str} : cString s = s ↔ nul ∉ s := by
  rw [cString, List.takeWhile_eq_self_iff]
  constructor
  · intro h hmem
    simpa using h nul hmem
  · rintro h c hc
    simpa using fun heq : c = nul => h (heq ▸ hc)

/-- What is returned for a time that can be converted. -/
lemma formatTimeToString_eq (env : Env) {t : Int} {timeFormat : Str} {timeinfo : Tm}
    (ht : env.localtime t = some timeinfo) (hp : nul ∉ timeFormat) :
    formatTimeToString env t timeFormat =
      cString (if (env.expansion timeFormat timeinfo).length < 80
        then env.expansion timeFormat timeinfo else env.indeterminate timeFormat t) := by
  simp only [formatTimeToString, ht, strftime, cString_eq_self_iff.mpr hp]
  split
  · exact cString_append_nul _ []
  · rfl

/-- **When the date is the date.** For a time that can be converted and a pattern without
NUL: exactly if the expansion, which must be free of NUL, fits into the buffer with its
terminator. -/
theorem faithful_iff (env : Env) (t : Int) (timeFormat : Str) (timeinfo : Tm)
    (ht : env.localtime t = some timeinfo) (hp : nul ∉ timeFormat) :
    Faithful env t timeFormat timeinfo ↔
      (env.expansion timeFormat timeinfo).length < 80 ∧
        nul ∉ env.expansion timeFormat timeinfo := by
  have heq : ∀ junk, formatTimeToString (withJunk env junk) t timeFormat =
      cString (if (env.expansion timeFormat timeinfo).length < 80
        then env.expansion timeFormat timeinfo else junk timeFormat t) :=
    fun junk => formatTimeToString_eq (withJunk env junk) ht hp
  constructor
  · intro h
    by_cases hlen : (env.expansion timeFormat timeinfo).length < 80
    · have hfmt := h.formatted fun _ _ => []
      rw [heq, if_pos hlen] at hfmt
      exact ⟨hlen, cString_eq_self_iff.mp hfmt⟩
    · -- the buffer may be empty, the expansion is not
      have hfmt := h.formatted fun _ _ => []
      rw [heq, if_neg hlen] at hfmt
      rw [← hfmt] at hlen
      exact absurd (by decide) hlen
  · rintro ⟨hlen, hnul⟩
    have hfmt : ∀ junk, formatTimeToString (withJunk env junk) t timeFormat =
        env.expansion timeFormat timeinfo := by
      intro junk
      rw [heq, if_pos hlen]
      exact cString_eq_self_iff.mpr hnul
    refine ⟨hfmt, ?_⟩
    rintro junk s m rfl rfl
    exact congrArg some (hfmt junk)

/-- The first second of 1970, and a `strftime` that copies the format. -/
def epoch : Env :=
  { Env.bare with
    localtime := fun _ => some ⟨0, 0, 0, 1, 0, 70, 4, 0, 0⟩
    expansion := fun format _ => format }

theorem faithful_iff_short :
    Faithful epoch 0 "1970".toList ⟨0, 0, 0, 1, 0, 70, 4, 0, 0⟩ ↔
      (epoch.expansion "1970".toList ⟨0, 0, 0, 1, 0, 70, 4, 0, 0⟩).length < 80 ∧
        nul ∉ epoch.expansion "1970".toList ⟨0, 0, 0, 1, 0, 70, 4, 0, 0⟩ :=
  faithful_iff epoch 0 "1970".toList ⟨0, 0, 0, 1, 0, 70, 4, 0, 0⟩ rfl (by decide)

/-- Eighty bytes are one too many. -/
theorem faithful_fails_on_eighty :
    ¬ ∀ (env : Env) (t : Int) (timeFormat : Str) (timeinfo : Tm),
      env.localtime t = some timeinfo → nul ∉ timeFormat →
      Faithful env t timeFormat timeinfo := by
  intro h
  have hfmt := (h epoch 0 (List.replicate 80 'x') ⟨0, 0, 0, 1, 0, 70, 4, 0, 0⟩ rfl
    (by decide)).formatted fun _ _ => []
  exact absurd hfmt (by decide)

end Ealogger.TimeFormat
