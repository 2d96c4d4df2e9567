import Ealogger.AsyncHistory
import Ealogger.FanOut
import Ealogger.TemplateValues

/-!
What can be read back from a line, and from a log file.

A template is a format: if one can tell where each inserted value ends, a line gives back the
value of every pattern of the template. If besides no line contains a line break, a log file
gives back the messages that went into it, one by one.
-/

namespace Ealogger.ReadBack

open Streams Render TemplateValues FileFailure FileView
open FanOut (Write)
open FileToggle (lines)

/-! ### A line -/

section Line

variable {env₁ env₂ : Env} {s₁ s₂ : Sink} {m₁ m₂ : LogMessage} {T : Str}

/-- Which patterns have a value does not depend on the message. -/
lemma valueOf_isSome_eq (env₁ env₂ : Env) (s₁ s₂ : Sink) (m₁ m₂ : LogMessage) (c : Char) :
    (valueOf env₁ s₁ m₁ c).isSome = (valueOf env₂ s₂ m₂ c).isSome := by
  unfold valueOf
  split <;> rfl

/-- The end of every value can be told in the lines of the two messages. -/
def Told (T : Str) (env₁ : Env) (s₁ : Sink) (m₁ : LogMessage) (env₂ : Env) (s₂ : Sink)
    (m₂ : LogMessage) : Prop :=
  Text.Marked '%' (valueOf env₁ s₁ m₁) (valueOf env₂ s₂ m₂) T

instance : Decidable (Told T env₁ s₁ m₁ env₂ s₂ m₂) :=
  inferInstanceAs (Decidable (Text.Marked _ _ _ _))

lemma prepareLogMessage_of_noFurther {env : Env} {s : Sink} {m : LogMessage} (hs : s.Fresh)
    (ha : s.accepts m = true) (hm : m.logType = .default) (h : NoFurtherPattern env s m) :
    s.prepareLogMessage env m = some (singlePass env s m) := by
  have hsteady := (Text.steady_filter_iff nodup_letters).mpr h
  rw [Sink.prepareLogMessage_eq, if_pos ha, Sink.text, if_neg (by simp [hm]),
    patternText_eq env m hs, fresh_letters hs,
    Text.passes_eq_expand (valueOf_percent env s m) (nodup_registered _) hsteady]
  exact congrArg some (expand_registered env m s.msgTemplate)

lemma agree_of_singlePass (h₁ : Reached T s₁) (h₂ : Reached T s₂)
    (ht : Told T env₁ s₁ m₁ env₂ s₂ m₂)
    (h : singlePass env₁ s₁ m₁ = singlePass env₂ s₂ m₂) : Agree T env₁ s₁ m₁ env₂ s₂ m₂ := by
  intro c hc
  rw [singlePass, singlePass, h₁.fresh.1, h₂.fresh.1] at h
  exact Text.values_of_expand (valueOf_percent env₁ s₁ m₁)
    (valueOf_isSome_eq env₁ env₂ s₁ s₂ m₁ m₂) ht h c ((Text.count_pos_iff (by simp)).mpr hc)

lemma singlePass_of_agree (h₁ : Reached T s₁) (h₂ : Reached T s₂)
    (h : Agree T env₁ s₁ m₁ env₂ s₂ m₂) : singlePass env₁ s₁ m₁ = singlePass env₂ s₂ m₂ := by
  rw [singlePass, singlePass, h₁.fresh.1, h₂.fresh.1]
  exact Text.expand_congr T fun c hc => h c ((Text.count_pos_iff (by simp)).mp hc)

/-- **A line is as good as its values.** For two accepted messages that are no stack messages,
whose values make no further pattern and end where one can tell: their lines are the same exactly
if they agree on every pattern that the template names. -/
theorem rendered_eq_iff_agree (h₁ : Reached T s₁) (h₂ : Reached T s₂)
    (ha₁ : s₁.accepts m₁ = true) (ha₂ : s₂.accepts m₂ = true) (hm₁ : m₁.logType = .default)
    (hm₂ : m₂.logType = .default) (hn₁ : NoFurtherPattern env₁ s₁ m₁)
    (hn₂ : NoFurtherPattern env₂ s₂ m₂) (ht : Told T env₁ s₁ m₁ env₂ s₂ m₂) :
    s₁.prepareLogMessage env₁ m₁ = s₂.prepareLogMessage env₂ m₂ ↔
      Agree T env₁ s₁ m₁ env₂ s₂ m₂ := by
  rw [prepareLogMessage_of_noFurther h₁.fresh.2 ha₁ hm₁ hn₁,
    prepareLogMessage_of_noFurther h₂.fresh.2 ha₂ hm₂ hn₂, Option.some.injEq]
  exact ⟨agree_of_singlePass h₁ h₂ ht, singlePass_of_agree h₁ h₂⟩

end Line

/-- Two lines of the default template of a log file; the calls stand in different lines of the
same file. -/
theorem rendered_eq_iff_agree_lines :
    (Sink.new "%d %s [%f:%l] %m".toList [] true .ealDebug).prepareLogMessage Env.bare
        (infoMessage "hello".toList) =
      (Sink.new "%d %s [%f:%l] %m".toList [] true .ealInfo).prepareLogMessage Env.bare
        (LogMessage.build 0 [] "hello".toList .ealInfo "src/main.cpp".toList 8 []) ↔
      Agree "%d %s [%f:%l] %m".toList Env.bare
        (Sink.new "%d %s [%f:%l] %m".toList [] true .ealDebug) (infoMessage "hello".toList)
        Env.bare (Sink.new "%d %s [%f:%l] %m".toList [] true .ealInfo)
        (LogMessage.build 0 [] "hello".toList .ealInfo "src/main.cpp".toList 8 []) :=
  rendered_eq_iff_agree (Reached.new ..) (Reached.new ..) (by decide) (by decide) (by decide)
    (by decide) (by decide) (by decide) (by decide)

/-! ### A log file -/

/-- A file sink is set up, there are calls of `write_log`, and the `Logger` is destroyed. -/
structure Session where
  datetimePattern : Str
  minLvl : LogLevel
  flushBuffer : Bool
  init : Device
  writes : List Write
  last : Device

namespace Session

variable (S : Session) (T path : Str)

def sink : Sink := Sink.new T S.datetimePattern true S.minLvl

def ops : List (Op × Device) :=
  (.initFileSink true S.minLvl T S.datetimePattern path S.flushBuffer, S.init) ::
    S.writes.map fun w => (w.call.op w.env, w.dev)

/-- What the log file holds in the end. -/
def contents (d : Disk) : Str :=
  (((Logger.new d).run (S.ops T path)).destroy S.last).state.world.disk.contents path

/-- The calls that the sink lets through. -/
def printed : List Write := S.writes.filter fun w => (S.sink T).accepts w.call.message

/-- No device refuses anything, and each call that is let through makes one line in which its
values stand as they are. -/
structure Clean : Prop where
  init : S.init.Faultless
  writes : ∀ w ∈ S.writes, w.dev.Faultless
  last : S.last.Faultless
  plain : ∀ w ∈ S.printed T, w.call.message.logType = .default
  noFurther : ∀ w ∈ S.printed T, NoFurtherPattern w.env (S.sink T) w.call.message
  oneLine : ∀ w ∈ S.printed T, '\n' ∉ singlePass w.env (S.sink T) w.call.message

variable {S T path}

/-- The lines of the calls that are let through. -/
lemma Clean.filterMap_eq (h : S.Clean T) :
    S.writes.filterMap (fun w => (S.sink T).prepareLogMessage w.env w.call.message) =
      (S.printed T).map fun w => singlePass w.env (S.sink T) w.call.message := by
  have hline : ∀ w ∈ S.writes, (S.sink T).prepareLogMessage w.env w.call.message =
      if (S.sink T).accepts w.call.message then
        some (singlePass w.env (S.sink T) w.call.message)
      else none := by
    intro w hw
    cases ha : (S.sink T).accepts w.call.message with
    | true =>
      have hmem : w ∈ S.printed T := List.mem_filter.mpr ⟨hw, ha⟩
      exact prepareLogMessage_of_noFurther (Sink.new_fresh ..) ha (h.plain w hmem)
        (h.noFurther w hmem)
    | false =>
      rw [Sink.prepareLogMessage_eq, ha]
      rfl
  rw [List.filterMap_congr hline, printed, ← List.filterMap_eq_map, List.filterMap_filter]
  rfl

/-- The ledger of the calls. -/
lemma reached_writes {A : Ledger} {e : Entry} {i : ℕ} (he : A.entry = some e)
    (hi : e.file = some i) (ws : List Write) :
    A.run (ws.map fun w => w.call.op w.env) = A ∧
      Ledger.messagesOf i (A.reached (ws.map fun w => w.call.op w.env)) =
        ws.filterMap fun w => e.toSink.prepareLogMessage w.env w.call.message := by
  induction ws with
  | nil => exact ⟨rfl, rfl⟩
  | cons w ws ih =>
    have hstep : A.exec (w.call.op w.env) = A := rfl
    have hreaches : A.reaches (w.call.op w.env) = A.received w.env w.call.message := rfl
    rw [List.map_cons, Ledger.reached, hstep, hreaches, Ledger.messagesOf_append, ih.2,
      Ledger.received_some he, List.filterMap_cons]
    refine ⟨ih.1, ?_⟩
    cases e.toSink.prepareLogMessage w.env w.call.message with
    | none => rfl
    | some msg => simp [hi, Ledger.messagesOf]

lemma written_eq (S : Session) (T path : Str) (d : Disk) :
    AsyncHistory.written d ((S.ops T path).map Prod.fst) path =
      d.contents path ++ lines (S.writes.filterMap fun w =>
        (S.sink T).prepareLogMessage w.env w.call.message) := by
  obtain ⟨i, hi⟩ := d.dir.create_names path
  let A : Ledger := ⟨some ⟨S.sink T, path, some i⟩, d.dir.create path⟩
  have hops : (S.ops T path).map Prod.fst =
      .initFileSink true S.minLvl T S.datetimePattern path S.flushBuffer ::
        S.writes.map fun w => w.call.op w.env := by
    simp [ops]
  have hopen : (⟨none, d.dir⟩ : Ledger).exec
      (.initFileSink true S.minLvl T S.datetimePattern path S.flushBuffer) = A := by
    simp [Ledger.exec, Ledger.openAt, hi, A, sink]
  obtain ⟨hwrites, hmessages⟩ := reached_writes (A := A) rfl rfl S.writes
  have hrun : (⟨none, d.dir⟩ : Ledger).run ((S.ops T path).map Prod.fst) = A := by
    rw [hops]
    change ((⟨none, d.dir⟩ : Ledger).exec _).run _ = A
    rw [hopen, hwrites]
  have hreached : Ledger.messagesOf i
      ((⟨none, d.dir⟩ : Ledger).reached ((S.ops T path).map Prod.fst)) =
        S.writes.filterMap fun w => (S.sink T).prepareLogMessage w.env w.call.message := by
    rw [hops, Ledger.reached, hopen, Ledger.messagesOf_append, hmessages]
    rfl
  rw [AsyncHistory.written, hrun]
  simp only [A, hi, hreached]

lemma Clean.contents_eq (h : S.Clean T) {d : Disk} (hd : d.dir.Sound) (path : Str) :
    S.contents T path d = d.contents path ++
      lines ((S.printed T).map fun w => singlePass w.env (S.sink T) w.call.message) := by
  have hgood := Slice.run_good (new_good d) (S.ops T path)
  have hall : ∀ o ∈ S.ops T path, o.2.Faultless := by
    intro o ho
    rcases List.mem_cons.mp ho with rfl | ho
    · exact h.init
    · obtain ⟨w, hw, rfl⟩ := List.mem_map.mp ho
      exact h.writes w hw
  have hdisk := congrArg Prod.snd (view_destroy hgood S.last)
  have hend := AsyncHistory.destroyed_of_run hd hall h.last path
  rw [← h.filterMap_eq, ← written_eq, ← hend]
  exact congrArg (fun d : Disk => d.contents path) hdisk

lemma Clean.oneLine_map (h : S.Clean T) :
    ∀ msg ∈ (S.printed T).map fun w => singlePass w.env (S.sink T) w.call.message,
      '\n' ∉ msg := by
  intro msg hmsg
  obtain ⟨w, hw, rfl⟩ := List.mem_map.mp hmsg
  exact h.oneLine w hw

end Session

/-- Two lists that are mapped to the same one match up. -/
lemma forall₂_of_map_eq {α β γ : Type} {f : α → γ} {g : β → γ} {r : α → β → Prop} {xs : List α}
    {ys : List β} (hr : ∀ x ∈ xs, ∀ y ∈ ys, f x = g y → r x y) (h : xs.map f = ys.map g) :
    List.Forall₂ r xs ys := by
  induction xs generalizing ys with
  | nil =>
    cases ys with
    | nil => exact List.Forall₂.nil
    | cons y ys => simp at h
  | cons x xs ih =>
    cases ys with
    | nil => simp at h
    | cons y ys =>
      obtain ⟨hhead, htail⟩ := List.cons.inj h
      refine List.Forall₂.cons (hr x List.mem_cons_self y List.mem_cons_self hhead) (ih ?_ htail)
      exact fun x' hx' y' hy' => hr x' (List.mem_cons_of_mem x hx') y' (List.mem_cons_of_mem y hy')

/-- **A log file is as good as its messages.** Two sessions on the same disk with the same
template, in which the end of every value can be told: if in the end their log files are the
same, they have let through equally many messages, and one by one these agree on every pattern
that the template names. -/
theorem agree_of_contents {d : Disk} (hd : d.dir.Sound) (T path : Str) {S S' : Session}
    (hS : S.Clean T) (hS' : S'.Clean T)
    (ht : ∀ w ∈ S.printed T, ∀ w' ∈ S'.printed T,
      Told T w.env (S.sink T) w.call.message w'.env (S'.sink T) w'.call.message)
    (h : S.contents T path d = S'.contents T path d) :
    List.Forall₂ (fun w w' =>
        Agree T w.env (S.sink T) w.call.message w'.env (S'.sink T) w'.call.message)
      (S.printed T) (S'.printed T) := by
  rw [hS.contents_eq hd, hS'.contents_eq hd] at h
  have hlines := Text.flatMap_snoc_inj hS.oneLine_map hS'.oneLine_map (List.append_cancel_left h)
  exact forall₂_of_map_eq (fun w hw w' hw' heq => agree_of_singlePass (Reached.new ..)
    (Reached.new ..) (ht w hw w' hw') heq) hlines

/-- A message that is held back and one that is printed, with and without `flush_buffer`. -/
def heldBack (flushBuffer : Bool) : Session where
  datetimePattern := []
  minLvl := .ealInfo
  flushBuffer := flushBuffer
  init := Device.willing
  writes := [⟨Env.bare, .plain 0 [] "a".toList .ealDebug, Device.willing⟩,
    ⟨Env.bare, .plain 0 [] "b".toList .ealInfo, Device.willing⟩]
  last := Device.willing

theorem agree_of_contents_heldBack :
    List.Forall₂ (fun w w' =>
        Agree "%s: %m".toList w.env ((heldBack true).sink "%s: %m".toList) w.call.message w'.env
          ((heldBack false).sink "%s: %m".toList) w'.call.message)
      ((heldBack true).printed "%s: %m".toList) ((heldBack false).printed "%s: %m".toList) := by
  have hclean : ∀ b, (heldBack b).Clean "%s: %m".toList := by
    intro b
    refine ⟨Device.willing_faultless, ?_, Device.willing_faultless, ?_, ?_, ?_⟩
    · simp [heldBack, Device.willing_faultless]
    all_goals cases b <;> decide
  refine agree_of_contents Disk.empty_sound "%s: %m".toList "a.log".toList (hclean true)
    (hclean false) (by decide) ?_
  rfl

end Ealogger.ReadBack
