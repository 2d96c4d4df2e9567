import Ealogger.Render

/-!
A rendered message depends on nothing but the values that the current template names.

The passes of a sink do expand patterns inside inserted values, but only patterns of its list,
and the list is that of the current template after every history of the sink.
-/

namespace Ealogger.TemplateValues

open Ealogger.Sink Render

/-- The sinks whose template was last set to `T`. -/
inductive Reached : Str → Sink → Prop
  | new (T p : Str) (enabled : Bool) (minLvl : LogLevel) : Reached T (Sink.new T p enabled minLvl)
  | setMsgTemplate {T : Str} {s : Sink} (h : Reached T s) (T' : Str) :
    Reached T' (s.setMsgTemplate T')
  | setDatetimePattern {T : Str} {s : Sink} (h : Reached T s) (p : Str) :
    Reached T (s.setDatetimePattern p)
  | setEnabled {T : Str} {s : Sink} (h : Reached T s) (enabled : Bool) :
    Reached T (s.setEnabled enabled)
  | setMinLvl {T : Str} {s : Sink} (h : Reached T s) (minLvl : LogLevel) :
    Reached T (s.setMinLvl minLvl)

lemma Reached.fresh {T : Str} {s : Sink} (h : Reached T s) : s.msgTemplate = T ∧ s.Fresh := by
  induction h with
  | new T p enabled minLvl => exact ⟨rfl, new_fresh T p enabled minLvl⟩
  | setMsgTemplate h T' _ => exact ⟨rfl, setMsgTemplate_fresh _ T'⟩
  | setDatetimePattern h p ih => exact ⟨ih.1, setDatetimePattern_fresh ih.2 p⟩
  | setEnabled h b ih => exact ⟨ih.1, setEnabled_fresh ih.2 b⟩
  | setMinLvl h lvl ih => exact ⟨ih.1, setMinLvl_fresh ih.2 lvl⟩

/-- The value of every pattern that occurs in the template is the same in both runs. -/
def Agree (T : Str) (env₁ : Env) (s₁ : Sink) (m₁ : LogMessage) (env₂ : Env) (s₂ : Sink)
    (m₂ : LogMessage) : Prop :=
  ∀ c, ['%', c] <:+: T → valueOf env₁ s₁ m₁ c = valueOf env₂ s₂ m₂ c

variable {T : Str} {env₁ env₂ : Env} {s₁ s₂ : Sink} {m₁ m₂ : LogMessage}

/-- What a message is rendered to: one pass for each pattern of the template, and for no
other. -/
lemma Reached.prepareLogMessage_eq {env : Env} {s : Sink} {m : LogMessage} (h : Reached T s)
    (ha : s.accepts m = true) (hm : m.logType = .default) :
    prepareLogMessage env s m =
      some (Text.passes '%' (valueOf env s m) (registered T) T) := by
  obtain ⟨rfl, hfresh⟩ := h.fresh
  rw [Sink.prepareLogMessage_eq, if_pos ha, text, if_neg (by simp [hm]),
    patternText_eq env m hfresh, fresh_letters hfresh]

/-- **Two runs.** Messages that agree on what the template names are rendered to the same
string, whatever else is in them and whatever patterns their values contain. -/
theorem rendered_of_agree (h₁ : Reached T s₁) (h₂ : Reached T s₂)
    (ha₁ : s₁.accepts m₁ = true) (ha₂ : s₂.accepts m₂ = true) (hm₁ : m₁.logType = .default)
    (hm₂ : m₂.logType = .default) (h : Agree T env₁ s₁ m₁ env₂ s₂ m₂) :
    ∃ text, prepareLogMessage env₁ s₁ m₁ = some text ∧
      prepareLogMessage env₂ s₂ m₂ = some text := by
  have hvalue : ∀ c ∈ registered T, valueOf env₁ s₁ m₁ c = valueOf env₂ s₂ m₂ c := by
    intro c hc
    exact h c ((Text.count_pos_iff (by simp)).mp (mem_registered.mp hc).2)
  refine ⟨_, h₁.prepareLogMessage_eq ha₁ hm₁, ?_⟩
  rw [h₂.prepareLogMessage_eq ha₂ hm₂, Text.passes_congr hvalue T]

/-- The `%s` of the text is read as a pattern, since the template names the severity; the `%f`
is not, and the files of the two calls do not show. -/
theorem rendered_of_agree_files :
    ∃ text, prepareLogMessage Env.bare ((Sink.new "%f".toList [] true .ealDebug).setMsgTemplate
        "%m %s".toList) (LogMessage.build 0 [] "%s %f".toList .ealInfo "a.cpp".toList 7 []) =
          some text ∧
      prepareLogMessage Env.bare (Sink.new "%m %s".toList [] true .ealInfo)
        (LogMessage.build 1 [] "%s %f".toList .ealInfo "b.cpp".toList 9 []) = some text := by
  refine rendered_of_agree (T := "%m %s".toList) ((Reached.new _ _ _ _).setMsgTemplate _)
    (Reached.new _ _ _ _) (by decide) (by decide) (by decide) (by decide) fun c hc => ?_
  have hletter : c = 'm' ∨ c = 's' := by simpa [List.infix_cons_iff] using hc
  rcases hletter with rfl | rfl <;> rfl

end Ealogger.TemplateValues
