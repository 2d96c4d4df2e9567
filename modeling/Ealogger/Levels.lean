import Ealogger.LoggerSpec
import Mathlib.Data.List.Flatten

/-!
Stricter settings show less, and nothing else.

Two runs with the same calls, in one of which sinks are disabled or have a higher minimum level
where in the other they have not. What the stricter run hands to the sinks is what the other
one does, with some of the strings left out.
-/

namespace Ealogger.Levels

open LoggerSpec

/-- The first call is the second, or asks for less to be shown. -/
inductive Stricter : Op → Op → Prop
  | refl (o : Op) : Stricter o o
  | initSyslogSink {b b' : Bool} {lvl lvl' : LogLevel} (T p : Str) (hb : b = true → b' = true)
    (hlvl : lvl'.value ≤ lvl.value) :
    Stricter (.initSyslogSink b lvl T p) (.initSyslogSink b' lvl' T p)
  | initConsoleSink {b b' : Bool} {lvl lvl' : LogLevel} (T p : Str) (hb : b = true → b' = true)
    (hlvl : lvl'.value ≤ lvl.value) :
    Stricter (.initConsoleSink b lvl T p) (.initConsoleSink b' lvl' T p)
  | initFileSink {b b' : Bool} {lvl lvl' : LogLevel} (T p path : Str) (fl fl' : Bool)
    (hb : b = true → b' = true) (hlvl : lvl'.value ≤ lvl.value) :
    Stricter (.initFileSink b lvl T p path fl) (.initFileSink b' lvl' T p path fl')
  | setEnabled (k : LoggerSink) {b b' : Bool} (hb : b = true → b' = true) :
    Stricter (.setEnabled k b) (.setEnabled k b')
  | setMinLvl (k : LoggerSink) {lvl lvl' : LogLevel} (hlvl : lvl'.value ≤ lvl.value) :
    Stricter (.setMinLvl k lvl) (.setMinLvl k lvl')

/-- The same template and date, and less is shown. -/
structure Below (e e' : LoggerSpec.Entry) : Prop where
  enabled : e.enabled = true → e'.enabled = true
  minLevel : e'.minLevel.value ≤ e.minLevel.value
  msgTemplate : e.msgTemplate = e'.msgTemplate
  datetimePattern : e.datetimePattern = e'.datetimePattern

/-- The strings that are shown in the end are left out of, and nothing else is different in,
what the other run has done. -/
structure Within (S S' : Spec) : Prop where
  entries : ∀ k, Option.Rel Below (S.entries k) (S'.entries k)
  trace : S.trace.Sublist S'.trace

variable {S S' : Spec} {k : LoggerSink}

lemma below_mk {b b' : Bool} {lvl lvl' : LogLevel} (hb : b = true → b' = true)
    (hlvl : lvl'.value ≤ lvl.value) (T p : Str) : Below ⟨b, lvl, T, p⟩ ⟨b', lvl', T, p⟩ :=
  ⟨hb, hlvl, rfl, rfl⟩

/-- A sink is there in both runs or in neither. -/
lemma Within.cases (h : Within S S') (k : LoggerSink) :
    (S.entries k = none ∧ S'.entries k = none) ∨
      ∃ e e', S.entries k = some e ∧ S'.entries k = some e' ∧ Below e e' := by
  have hk := h.entries k
  generalize S.entries k = e at hk ⊢
  generalize S'.entries k = e' at hk ⊢
  cases hk with
  | none => exact Or.inl ⟨rfl, rfl⟩
  | some hbelow => exact Or.inr ⟨_, _, rfl, rfl, hbelow⟩

/-! ### The filter and the rendering -/

lemma Below.emits {e e' : LoggerSpec.Entry} (h : Below e e') {m : LogMessage} (he : e.Emits m) :
    e'.Emits m := by
  obtain ⟨henabled, hinternal, hlevel⟩ := he
  refine ⟨h.enabled henabled, hinternal, ?_⟩
  rcases hlevel with hstack | hlevel
  · exact Or.inl hstack
  · exact Or.inr (h.minLevel.trans hlevel)

/-- Neither the state nor the minimum level shows in a line. -/
lemma render_congr {e e' : LoggerSpec.Entry} (hT : e.msgTemplate = e'.msgTemplate)
    (hp : e.datetimePattern = e'.datetimePattern) (env : Env) (m : LogMessage) :
    e.render env m = e'.render env m := by
  obtain ⟨b, lvl, T, p⟩ := e
  obtain ⟨b', lvl', T', p'⟩ := e'
  obtain rfl : T = T' := hT
  obtain rfl : p = p' := hp
  have hvalue : ∀ ty, Sink.patternValue env (Sink.new T p b lvl) m ty =
      Sink.patternValue env (Sink.new T p b' lvl') m ty := by
    intro ty
    cases ty <;> rfl
  have happly : Sink.applyPattern env (Sink.new T p b lvl) m =
      Sink.applyPattern env (Sink.new T p b' lvl') m := by
    funext msg cp
    unfold Sink.applyPattern
    rw [hvalue]
  unfold LoggerSpec.Entry.render
  split
  · rfl
  · unfold Sink.patternText LoggerSpec.Entry.toSink
    rw [happly]
    rfl

lemma Within.emission (h : Within S S') (env : Env) (m : LogMessage) (k : LoggerSink) :
    (S.emission env m k).Sublist (S'.emission env m k) := by
  unfold Spec.emission
  rcases h.cases k with ⟨hnone, hnone'⟩ | ⟨e, e', hsome, hsome', hbelow⟩
  · rw [hnone, hnone']
  · rw [hsome, hsome']
    by_cases he : e.Emits m
    · simp only [if_pos he, if_pos (hbelow.emits he),
        render_congr hbelow.msgTemplate hbelow.datetimePattern, List.Sublist.refl]
    · simp only [if_neg he, List.nil_sublist]

/-! ### Operations -/

lemma Within.set (h : Within S S') {e e' : Option LoggerSpec.Entry} (he : Option.Rel Below e e')
    (k : LoggerSink) :
    Within (S.set k e) (S'.set k e') := by
  refine ⟨fun j => ?_, h.trace⟩
  by_cases hj : j = k
  · subst hj
    simpa [Spec.set] using he
  · simpa [Spec.set, hj] using h.entries j

lemma Within.modify (h : Within S S') (k : LoggerSink) {g g' : LoggerSpec.Entry → LoggerSpec.Entry}
    (hg : ∀ e e', Below e e' → Below (g e) (g' e')) :
    Within (S.modify k g) (S'.modify k g') := by
  refine h.set ?_ k
  rcases h.cases k with ⟨hnone, hnone'⟩ | ⟨e, e', hsome, hsome', hbelow⟩
  · rw [hnone, hnone']
    exact Option.Rel.none
  · rw [hsome, hsome']
    exact Option.Rel.some (hg e e' hbelow)

lemma Within.emit (h : Within S S') {es es' : List Event} (hes : es.Sublist es') :
    Within (S.emit es) (S'.emit es') :=
  ⟨h.entries, h.trace.append hes⟩

lemma Within.isSome (h : Within S S') (k : LoggerSink) :
    (S.entries k).isSome = (S'.entries k).isSome := by
  rcases h.cases k with ⟨hnone, hnone'⟩ | ⟨e, e', hsome, hsome', -⟩
  · rw [hnone, hnone']
  · rw [hsome, hsome']
    rfl

/-- The same call in both runs. -/
lemma Within.exec_same (h : Within S S') (o : Op) : Within (S.exec o) (S'.exec o) := by
  have hrefl : ∀ e, Below e e := fun e => ⟨id, Nat.le_refl _, rfl, rfl⟩
  cases o with
  | writeLog env now stack msg lvl file lnumber func =>
    exact h.emit (List.Sublist.flatMap_right sinkKeys fun k _ => h.emission env _ k)
  | initSyslogSink b lvl T p => exact h.set (Option.Rel.some (hrefl _)) _
  | initConsoleSink b lvl T p => exact h.set (Option.Rel.some (hrefl _)) _
  | initFileSink b lvl T p path fl => exact h.set (Option.Rel.some (hrefl _)) _
  | setMsgTemplate k T =>
    exact h.modify k fun _ _ he => ⟨he.enabled, he.minLevel, rfl, he.datetimePattern⟩
  | setDatetimePattern k p =>
    exact h.modify k fun _ _ he => ⟨he.enabled, he.minLevel, he.msgTemplate, rfl⟩
  | setEnabled k b =>
    exact h.modify k fun _ _ he => ⟨id, he.minLevel, he.msgTemplate, he.datetimePattern⟩
  | setMinLvl k lvl =>
    exact h.modify k fun _ _ he =>
      ⟨he.enabled, Nat.le_refl _, he.msgTemplate, he.datetimePattern⟩
  | discardSink k => exact h.set Option.Rel.none k
  | isInitialized k =>
    refine h.emit ?_
    rw [h.isSome k]
  | queueEmpty => exact h.emit (List.Sublist.refl _)

/-- **One call.** -/
theorem Within.exec (h : Within S S') {o o' : Op} (ho : Stricter o o') :
    Within (S.exec o) (S'.exec o') := by
  cases ho with
  | refl o => exact h.exec_same o
  | initSyslogSink T p hb hlvl => exact h.set (Option.Rel.some (below_mk hb hlvl T p)) _
  | initConsoleSink T p hb hlvl => exact h.set (Option.Rel.some (below_mk hb hlvl T p)) _
  | initFileSink T p path fl fl' hb hlvl => exact h.set (Option.Rel.some (below_mk hb hlvl T p)) _
  | setEnabled k hb =>
    exact h.modify k fun _ _ he => ⟨hb, he.minLevel, he.msgTemplate, he.datetimePattern⟩
  | setMinLvl k hlvl =>
    exact h.modify k fun _ _ he => ⟨he.enabled, hlvl, he.msgTemplate, he.datetimePattern⟩

/-! ### Runs -/

lemma Within.run (h : Within S S') {os os' : List Op} (hos : List.Forall₂ Stricter os os') :
    Within (S.run os) (S'.run os') := by
  induction hos generalizing S S' with
  | nil => exact h
  | cons ho _ ih => exact ih (h.exec ho)

end Ealogger.Levels
