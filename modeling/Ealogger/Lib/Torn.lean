import Ealogger.Lib.Stream
import Mathlib.Data.List.Forall2
import Mathlib.Data.List.Infix

/-!
Output streams over a device that may fail at any time.

What has reached the disk stays there. What a stream has buffered may be lost from some point
on, and of a line that it is handed it may take in less than all. So at any time a file holds of
every line a part from the start of it, perhaps nothing, perhaps all, in the order of the lines.
-/

namespace Streams

variable {P α : Type}

/-- Where two texts are cut: in the first, or in the second. -/
lemma cut_cases {s t u : List α} (h : u <+: s ++ t) :
    (∃ w, u ++ w = s) ∨ ∃ v w, v ++ w = t ∧ u = s ++ v := by
  obtain ⟨w, hw⟩ := h
  rcases List.append_eq_append_iff.mp hw with ⟨v, rfl, rfl⟩ | ⟨v, rfl, rfl⟩
  · exact Or.inl ⟨v, rfl⟩
  · exact Or.inr ⟨v, w, rfl, rfl⟩

/-! ### Torn lines -/

/-- Of every line a part from its start, one after the other. -/
def Torn (ls : List (List α)) (t : List α) : Prop :=
  ∃ ps, List.Forall₂ (· <+: ·) ps ls ∧ ps.flatten = t

lemma torn_nil (ls : List (List α)) : Torn ls [] := by
  refine ⟨ls.map fun _ => [], ?_, by simp⟩
  induction ls with
  | nil => exact .nil
  | cons l ls ih => exact .cons l.nil_prefix ih

lemma torn_singleton {l p : List α} (h : p <+: l) : Torn [l] p :=
  ⟨[p], .cons h .nil, by simp⟩

lemma Torn.append {ls ls' : List (List α)} {t t' : List α} (h : Torn ls t) (h' : Torn ls' t') :
    Torn (ls ++ ls') (t ++ t') := by
  obtain ⟨ps, hps, rfl⟩ := h
  obtain ⟨ps', hps', rfl⟩ := h'
  exact ⟨ps ++ ps', List.rel_append hps hps', List.flatten_append⟩

/-- A text that is cut short still has of every line a part. -/
lemma Torn.of_prefix {ls : List (List α)} {t u : List α} (h : Torn ls t) (hu : u <+: t) :
    Torn ls u := by
  obtain ⟨ps, hps, rfl⟩ := h
  induction hps generalizing u with
  | nil =>
    obtain rfl : u = [] := by simpa using hu
    exact torn_nil []
  | @cons p l ps ls hp _ ih =>
    rw [List.flatten_cons] at hu
    rcases cut_cases hu with hshort | ⟨v, w, hv, rfl⟩
    · simpa using (torn_singleton (List.IsPrefix.trans hshort hp)).append (torn_nil ls)
    · exact (torn_singleton hp).append (ih ⟨w, hv⟩)

/-- A file, with `d` on disk and `t` with what a stream has still to write, afterwards with `d'`
and `t'`: what was on disk has stayed, behind it the text may have been cut, and of the lines
that have come a part has been taken in. -/
structure Leaves (d t : List α) (ls : List (List α)) (d' t' : List α) : Prop where
  kept : d <+: d'
  below : d' <+: t'
  text : ∃ q p, d <+: q ∧ q <+: t ∧ Torn ls p ∧ q ++ p = t'

lemma Leaves.refl {d t : List α} (h : d <+: t) : Leaves d t [] d t :=
  ⟨List.prefix_refl d, h, t, [], h, List.prefix_refl t, torn_nil [], t.append_nil⟩

/-- The text of a stream that is given up. -/
lemma Leaves.lose {d t d' t' : List α} {ls : List (List α)} (h : Leaves d t ls d' t') :
    Leaves d t ls d' d' := by
  obtain ⟨q, p, hdq, hqt, hp, rfl⟩ := h.text
  refine ⟨h.kept, List.prefix_refl d', ?_⟩
  rcases cut_cases h.below with hshort | ⟨v, w, hv, rfl⟩
  · exact ⟨d', [], h.kept, List.IsPrefix.trans hshort hqt, torn_nil ls, d'.append_nil⟩
  · exact ⟨q, v, hdq, hqt, hp.of_prefix ⟨w, hv⟩, rfl⟩

lemma Leaves.trans {d t d' t' d'' t'' : List α} {ls ls' : List (List α)}
    (h : Leaves d t ls d' t') (h' : Leaves d' t' ls' d'' t'') :
    Leaves d t (ls ++ ls') d'' t'' := by
  obtain ⟨q, p, hdq, hqt, hp, rfl⟩ := h.text
  obtain ⟨q', p', hdq', hqt', hp', rfl⟩ := h'.text
  refine ⟨h.kept.trans h'.kept, h'.below, ?_⟩
  -- the second cut is in the old text or in what has come
  rcases cut_cases hqt' with hshort | ⟨v, w, hv, rfl⟩
  · exact ⟨q', p', h.kept.trans hdq', List.IsPrefix.trans hshort hqt, (torn_nil ls).append hp', rfl⟩
  · exact ⟨q, v ++ p', hdq, hqt, (hp.of_prefix ⟨w, hv⟩).append hp', (q.append_assoc v p').symm⟩

/-- A file that was on disk alone, after all. -/
lemma Leaves.torn {d d' t' : List α} {ls : List (List α)} (h : Leaves d d ls d' t') :
    ∃ t, Torn ls t ∧ d ++ t = d' := by
  obtain ⟨q, p, hdq, hqd, hp, hd'⟩ := h.lose.text
  obtain rfl : q = d := List.IsPrefix.eq_of_length_le hqd hdq.length_le
  exact ⟨p, hp, hd'⟩

/-! ### Streams -/

namespace OFStream

/-- The stream takes in `t`, and may write out some of its buffer. Whether it has failed on the
way is left open. -/
structure Adds (s : OFStream α) (d : Disk P α) (st : OFStream α × Disk P α) (t : List α) :
    Prop where
  file : st.1.file = s.file
  dir : st.2.dir = d.dir
  kept : ∀ i, d.data i <+: st.2.data i
  intake : ∀ i, st.1.intake st.2 i = s.intake d i ++ if s.file = some i then t else []

variable {s : OFStream α} {d : Disk P α}

lemma Adds.trans {st st' : OFStream α × Disk P α} {t u : List α} (h : s.Adds d st t)
    (h' : st.1.Adds st.2 st' u) : s.Adds d st' (t ++ u) := by
  refine ⟨h'.file.trans h.file, h'.dir.trans h.dir, fun i => (h.kept i).trans (h'.kept i),
    fun i => ?_⟩
  rw [h'.intake, h.intake, h.file]
  by_cases hi : s.file = some i <;> simp [hi]

lemma Adds.refl (s : OFStream α) (d : Disk P α) : s.Adds d (s, d) [] :=
  ⟨rfl, rfl, fun i => List.prefix_refl _, fun i => by simp⟩

/-- The error bit is no part of it. -/
lemma Adds.setFail {st : OFStream α × Disk P α} {t : List α} (h : s.Adds d st t) :
    s.Adds d (st.1.setFail st.2).state t :=
  ⟨h.file, h.dir, h.kept, h.intake⟩

lemma spill_adds (n : ℕ) : s.Adds d (s.spill n d) [] := by
  have htakes := spill_takes (s := s) (d := d) n
  refine ⟨htakes.file, htakes.dir, fun i => ?_, htakes.intake⟩
  unfold spill
  cases hf : s.file with
  | none => exact List.prefix_refl _
  | some j =>
    by_cases hi : i = j
    · subst hi
      simp
    · simp [Disk.append_data_of_ne _ hi]

/-- All or nothing is taken in; if nothing is, the stream has failed or is closed. -/
lemma insert_adds (t : List α) (a : Answer) :
    s.Adds d (s.insert t a d).state t ∨
      s.Adds d (s.insert t a d).state [] ∧ (s.insert t a d).state.1.fail = true := by
  unfold insert
  split
  · exact Or.inr ⟨(Adds.refl s d).setFail, rfl⟩
  · split
    · refine Or.inl ?_
      have hbuffer : s.Adds d ({ s with buffer := s.buffer ++ t }, d) t :=
        ⟨rfl, rfl, fun i => List.prefix_refl _, (buffer_takes t).intake⟩
      simpa using hbuffer.trans (spill_adds a.spill)
    · exact Or.inr ⟨(spill_adds a.spill).setFail, rfl⟩

lemma flush_adds (a : Answer) : s.Adds d (s.flush a d).state [] := by
  unfold flush
  split
  · split
    · exact Adds.refl s d
    · exact spill_adds _
  · split
    · exact (Adds.refl s d).setFail
    · exact (spill_adds a.spill).setFail

lemma data_prefix_intake (s : OFStream α) (d : Disk P α) (i : ℕ) : d.data i <+: s.intake d i :=
  List.prefix_append _ _

lemma Adds.leaves {st : OFStream α × Disk P α} {t : List α} (h : s.Adds d st t) (i : ℕ)
    {ls : List (List α)} (hls : s.file = some i → Torn ls t) :
    Leaves (d.data i) (s.intake d i) ls (st.2.data i) (st.1.intake st.2 i) := by
  refine ⟨h.kept i, data_prefix_intake _ _ i, s.intake d i, _, data_prefix_intake _ _ i,
    List.prefix_refl _, ?_, (h.intake i).symm⟩
  split
  · next hi => exact hls hi
  · exact torn_nil ls

/-- Of the buffer a part may be lost. -/
lemma close_leaves (a : Answer) :
    (s.close a d).state.2.dir = d.dir ∧ ∀ i, Leaves (d.data i) (s.intake d i) []
      ((s.close a d).state.2.data i) ((s.close a d).state.1.intake (s.close a d).state.2 i) := by
  -- whatever is written out, the rest of the buffer is gone
  have hspill : ∀ n, (s.spill n d).2.dir = d.dir ∧ ∀ i, Leaves (d.data i) (s.intake d i) []
      ((s.spill n d).2.data i) ((s.spill n d).2.data i) := by
    intro n
    have hadds := spill_adds (s := s) (d := d) n
    exact ⟨hadds.dir, fun i => (hadds.leaves i fun _ => torn_nil []).lose⟩
  unfold close
  split
  · exact ⟨rfl, fun i => Leaves.refl (data_prefix_intake s d i)⟩
  · cases a.ok with
    | true => simpa [intake] using hspill s.buffer.length
    | false => simpa [intake, setFail] using hspill a.spill

end OFStream

end Streams
