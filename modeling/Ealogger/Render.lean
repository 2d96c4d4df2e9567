import Ealogger.Sink

/-!
Rendering as one pass over the template, and when the passes of a sink amount to it.

`singlePass` reads the template once and inserts the values verbatim. A sink instead runs
one replacement pass for each pattern of its list, over a string that already contains
inserted values. The two agree as long as no inserted value, alone or together with the
characters around it, makes a pattern whose turn is still to come.
-/

namespace Ealogger.Render

open Ealogger.Sink

/-- The letters of the conversion patterns, in the order of `fill_conv_patterns`. -/
def letters : List Char := ['d', 'f', 'F', 'l', 'u', 'h', 't', 'm', 's']

/-- What stands for `%c` in a rendered message. -/
def valueOf (env : Env) (s : Sink) (m : LogMessage) : Char → Option Str
  | 'd' => some (formatTimeToString env m.t s.datetimePattern)
  | 'f' => some (getFileName m.callFile)
  | 'F' => some m.callFile
  | 'l' => some (intToString m.callFileLineNum)
  | 'u' => some m.callFunc
  | 'h' => some (getHostname env)
  | 'm' => some m.message
  | 's' => some (loglevelLookup m.severity)
  | _ => none

/-- The template read once from left to right. -/
def singlePass (env : Env) (s : Sink) (m : LogMessage) : Str :=
  Text.expand '%' (valueOf env s m) s.msgTemplate

/-- No inserted text is read as a pattern: the string each pass of the sink works on has
exactly the occurrences of its pattern that the template has. -/
def Verbatim (env : Env) (s : Sink) (m : LogMessage) : Prop :=
  ∀ pre cp post, s.vecConvPatterns = pre ++ cp :: post →
    (patternValue env s m cp.ptype).isSome →
    Text.count cp.convPattern (pre.foldl (applyPattern env s m) s.msgTemplate) =
      Text.count cp.convPattern s.msgTemplate

/-- What a rendering by single-pass substitution is. -/
structure SinglePass (env : Env) (s : Sink) (m : LogMessage) : Prop where
  rendered : prepareLogMessage env s m = some (singlePass env s m)
  verbatim : Verbatim env s m

/-- For each pattern of the template: inserting the values of the patterns that come before
it in the fixed order, in one pass, makes no further occurrence of it. -/
def NoFurtherPattern (env : Env) (s : Sink) (m : LogMessage) : Prop :=
  ∀ c ∈ letters, (valueOf env s m c).isSome → 0 < Text.count ['%', c] s.msgTemplate →
    Text.count ['%', c] (Text.expand '%'
        (Text.restrict (valueOf env s m) (letters.takeWhile (· ≠ c))) s.msgTemplate) =
      Text.count ['%', c] s.msgTemplate

instance (env : Env) (s : Sink) (m : LogMessage) : Decidable (NoFurtherPattern env s m) :=
  -- over the list of the letters, not over every character
  List.decidableBAll _ letters

/-- The letter of a pattern. -/
def letter (cp : ConversionPattern) : Char := cp.convPattern.getD 1 '%'

lemma patternTable_letters : patternTable.map letter = letters := by decide

lemma nodup_letters : letters.Nodup := by decide

lemma patternTable_pattern {cp : ConversionPattern} (h : cp ∈ patternTable) :
    cp.convPattern = ['%', letter cp] := by
  simp only [patternTable, List.mem_cons, List.not_mem_nil, or_false] at h
  rcases h with rfl | rfl | rfl | rfl | rfl | rfl | rfl | rfl | rfl <;> rfl

/-- The letters of the patterns that occur in a template. -/
def registered (T : Str) : List Char := letters.filter fun c => 0 < Text.count ['%', c] T

lemma mem_registered {T : Str} {c : Char} :
    c ∈ registered T ↔ c ∈ letters ∧ 0 < Text.count ['%', c] T := by
  simp [registered]

lemma nodup_registered (T : Str) : (registered T).Nodup := nodup_letters.filter _

/-- The list of a template holds the patterns that occur in it. -/
lemma convPatterns_letters (T : Str) : (convPatterns T).map letter = registered T := by
  rw [registered, ← patternTable_letters, List.filter_map, convPatterns]
  congr 1
  refine List.filter_congr fun cp hcp => ?_
  have hp := patternTable_pattern hcp
  have hne : cp.convPattern ≠ [] := by simp [hp]
  have hfind := Text.find_zero_eq_none_iff (s := T) hne
  rw [Function.comp_apply, ← hp]
  cases h : Text.find T cp.convPattern 0 with
  | none => simp [hfind.mp h]
  | some i =>
    have hcount : Text.count cp.convPattern T ≠ 0 := fun h0 => by simp [hfind.mpr h0] at h
    simp [Nat.pos_of_ne_zero hcount]

lemma fresh_letters {s : Sink} (hs : s.Fresh) :
    s.vecConvPatterns.map letter = registered s.msgTemplate := by
  rw [hs]
  exact convPatterns_letters s.msgTemplate

section

variable (env : Env) (s : Sink) (m : LogMessage)

lemma valueOf_percent : valueOf env s m '%' = none := rfl

lemma patternTable_value {cp : ConversionPattern} (h : cp ∈ patternTable) :
    patternValue env s m cp.ptype = valueOf env s m (letter cp) := by
  simp only [patternTable, List.mem_cons, List.not_mem_nil, or_false] at h
  rcases h with rfl | rfl | rfl | rfl | rfl | rfl | rfl | rfl | rfl <;> rfl

/-- One turn of the loop is one replacement pass. -/
lemma applyPattern_eq {cp : ConversionPattern} (h : cp ∈ patternTable) (msg : Str) :
    applyPattern env s m msg cp = Text.pass '%' (valueOf env s m) msg (letter cp) := by
  have hp := patternTable_pattern h
  unfold applyPattern Text.pass
  rw [patternTable_value env s m h]
  cases valueOf env s m (letter cp) with
  | none => rfl
  | some v =>
    simp only
    rw [replaceConversionPattern_eq cp (by simp [hp]), hp]

lemma foldl_applyPattern {cps : List ConversionPattern} (h : ∀ cp ∈ cps, cp ∈ patternTable)
    (msg : Str) : cps.foldl (applyPattern env s m) msg =
      Text.passes '%' (valueOf env s m) (cps.map letter) msg := by
  induction cps generalizing msg with
  | nil => rfl
  | cons cp cps ih =>
    rw [List.foldl_cons, applyPattern_eq env s m (h cp (by simp)),
      ih fun c hc => h c (by simp [hc])]
    rfl

variable {s}

lemma mem_patternTable (hs : s.Fresh) {cp : ConversionPattern} (h : cp ∈ s.vecConvPatterns) :
    cp ∈ patternTable := by
  rw [hs] at h
  exact List.mem_of_mem_filter h

lemma patternText_eq (hs : s.Fresh) : patternText env s m =
    Text.passes '%' (valueOf env s m) (s.vecConvPatterns.map letter) s.msgTemplate :=
  foldl_applyPattern env s m (fun _ => mem_patternTable hs) _

lemma verbatim_iff (hs : s.Fresh) : Verbatim env s m ↔
    Text.Steady '%' (valueOf env s m) (s.vecConvPatterns.map letter) s.msgTemplate
      fun pre => Text.passes '%' (valueOf env s m) pre s.msgTemplate := by
  have htable : ∀ cp ∈ s.vecConvPatterns, cp ∈ patternTable := fun _ => mem_patternTable hs
  constructor
  · intro h pre c post hd hv
    obtain ⟨pre', rest, hsplit, rfl, hrest⟩ := List.map_eq_append_iff.mp hd
    obtain ⟨cp, post', rfl, rfl, rfl⟩ := List.map_eq_cons_iff.mp hrest
    have hcp := htable cp (by simp [hsplit])
    have := h pre' cp post' hsplit (by rwa [patternTable_value env s m hcp])
    rwa [foldl_applyPattern env s m fun d hd => htable d (by simp [hsplit, hd]),
      patternTable_pattern hcp] at this
  · intro h pre cp post hd hv
    have hcp := htable cp (by simp [hd])
    have := h (pre.map letter) (letter cp) (post.map letter) (by simp [hd])
      (by rwa [← patternTable_value env s m hcp])
    rw [foldl_applyPattern env s m fun d hmem => htable d (by simp [hd, hmem]),
      patternTable_pattern hcp]
    exact this

/-- Values of patterns the template does not contain make no difference. -/
lemma expand_registered (T : Str) :
    Text.expand '%' (Text.restrict (valueOf env s m) (registered T)) T =
      Text.expand '%' (valueOf env s m) T := by
  refine Text.expand_congr T fun c hc => ?_
  by_cases hm : c ∈ letters
  · simp [Text.restrict, mem_registered, hm, hc]
  · have hnone : valueOf env s m c = none := by
      unfold valueOf
      split <;> first | rfl | exact absurd (by decide) hm
    simp [Text.restrict, hnone]

/-- **When rendering is a single pass.** For an accepted message that is no stack message,
the rendering is a single-pass substitution exactly when no inserted value makes a further
occurrence of a pattern that is still to be replaced. -/
theorem singlePass_iff (hs : s.Fresh) (ha : s.accepts m = true) (hm : m.logType = .default) :
    SinglePass env s m ↔ NoFurtherPattern env s m := by
  have hnd := nodup_registered s.msgTemplate
  have hletters := fresh_letters hs
  have hiff : Verbatim env s m ↔ NoFurtherPattern env s m := by
    rw [verbatim_iff env m hs, hletters,
      Text.steady_passes_iff (valueOf_percent env s m) hnd, registered,
      Text.steady_filter_iff nodup_letters]
    rfl
  refine ⟨fun h => hiff.mp h.verbatim, fun h => ⟨?_, hiff.mpr h⟩⟩
  have hsteady := (Text.steady_filter_iff nodup_letters).mpr h
  rw [prepareLogMessage_eq, if_pos ha, text, if_neg (by simp [hm]), patternText_eq env m hs,
    hletters, Text.passes_eq_expand (valueOf_percent env s m) hnd hsteady,
    expand_registered, singlePass]

end

/-- A message of severity `INFO` with the given text. -/
def infoMessage (msg : Str) : LogMessage :=
  LogMessage.build 0 [] msg .ealInfo "main.cpp".toList 7 "main".toList

theorem singlePass_iff_hello :
    SinglePass Env.bare (Sink.new "%s: 100%% %m".toList [] true .ealDebug)
      (infoMessage "hello".toList) :=
  (singlePass_iff Env.bare (infoMessage "hello".toList) (Sink.new_fresh _ _ _ _) (by decide)
    (by decide)).mpr (by decide)

/-- A message whose text is `%s`, in the template `%m %s`, comes out as `INFO INFO`. -/
theorem singlePass_fails_on_message_text :
    ¬ ∀ (env : Env) (s : Sink) (m : LogMessage), s.Fresh → s.accepts m = true →
      m.logType = .default → prepareLogMessage env s m = some (singlePass env s m) := by
  intro h
  have hm := h Env.bare (Sink.new "%m %s".toList [] true .ealDebug) (infoMessage "%s".toList)
    (Sink.new_fresh _ _ _ _) (by decide) (by decide)
  exact absurd hm (by decide)

end Ealogger.Render
