import Ealogger.Lib.Greedy
import Ealogger.StackTrace

/-!
What `stack_trace` makes of an arbitrary symbol.

A library may be called anything, and demangled or not a name may contain parentheses and plus
signs (`operator+`, a lambda), so that a symbol can often be read in several ways. The regular
expression decides for the reading with the longest file and, among these, for the one with the
longest name; a symbol that cannot be read at all is shown as it is.
-/

namespace Ealogger.StackTrace

open Regex

/-- A way to read a text as a symbol. The delimiters may occur in all of its parts. -/
structure Reading where
  file : Str
  name : Str
  x : Char
  hex : Str
  tail : Str
  file_line : ∀ c ∈ file, anyChar c = true
  name_line : ∀ c ∈ name, anyChar c = true
  x_eq : x = 'x' ∨ x = 'X'
  hex_ne_nil : hex ≠ []
  hex_digits : ∀ c ∈ hex, hexDigit c = true

namespace Reading

def text (ρ : Reading) : Str :=
  ρ.file ++ '(' :: (ρ.name ++ '+' :: '0' :: ρ.x :: (ρ.hex ++ ')' :: ρ.tail))

/-- The tail is not shown. -/
def shown (cxaDemangle : Str → Option Str) (ρ : Reading) : Str :=
  ρ.file ++ " : ".toList ++ (cxaDemangle (cString ρ.name)).getD (ρ.name ++ "()".toList) ++
    "+0".toList ++ ρ.x :: ρ.hex

/-- The reading with the longer file is preferred, then the one with the longer name. -/
def Preferred (ρ ρ' : Reading) : Prop :=
  ρ'.file.length < ρ.file.length ∨
    ρ'.file.length = ρ.file.length ∧ ρ'.name.length < ρ.name.length

end Reading

/-- What a symbol is turned into. -/
inductive Reads (cxaDemangle : Str → Option Str) : Str → Str → Prop
  | unread {symbol : Str} (h : ∀ ρ : Reading, ρ.text ≠ symbol) : Reads cxaDemangle symbol symbol
  | read (ρ : Reading) (h : ∀ ρ' : Reading, ρ'.text = ρ.text → ρ' = ρ ∨ ρ.Preferred ρ') :
    Reads cxaDemangle ρ.text (ρ.shown cxaDemangle)

/-! ### Readings are matches -/

namespace Reading

/-- How often the repetitions are taken. -/
def counts (ρ : Reading) : List ℕ := [ρ.file.length, ρ.name.length, ρ.hex.length - 1]

def toMatch (ρ : Reading) : Match Char :=
  ⟨ρ.file ++ ['('] ++ (ρ.name ++ ['+'] ++ '0' :: ρ.x :: (ρ.hex ++ [')'])),
    [(1, ρ.file ++ ['(']), (2, ρ.name ++ ['+']), (3, '0' :: ρ.x :: (ρ.hex ++ [')']))], ρ.tail⟩

/-- Two readings of one text with parts of the same lengths are the same. -/
lemma eq_of_length {ρ ρ' : Reading} (h : ρ.text = ρ'.text) (hfile : ρ.file.length = ρ'.file.length)
    (hname : ρ.name.length = ρ'.name.length) : ρ = ρ' := by
  obtain ⟨file, name, x, hex, tail, _, _, _, _, hdigits⟩ := ρ
  obtain ⟨file', name', x', hex', tail', _, _, _, _, hdigits'⟩ := ρ'
  obtain ⟨rfl, hrest⟩ := List.append_inj h hfile
  obtain ⟨rfl, hrest⟩ := List.append_inj ((List.cons_inj_right _).mp hrest) hname
  obtain ⟨rfl, hdig⟩ : x = x' ∧ hex ++ ')' :: tail = hex' ++ ')' :: tail' := by simpa using hrest
  -- the digits end at the first parenthesis
  have hspan : ∀ {l t : Str}, (∀ c ∈ l, hexDigit c = true) →
      (l ++ ')' :: t).takeWhile hexDigit = l := by
    intro l t hl
    rw [List.takeWhile_append_of_pos hl,
      List.takeWhile_cons_of_neg (by decide : ¬ hexDigit ')' = true), List.append_nil]
  have hhex := congrArg (List.takeWhile hexDigit) hdig
  rw [hspan hdigits, hspan hdigits'] at hhex
  subst hhex
  obtain rfl := (List.cons_inj_right _).mp (List.append_cancel_left hdig)
  rfl

end Reading

variable {b : Bool} {s : Str} {ns : List ℕ} {m : Match Char}

lemma matches_fileExpr_iff :
    Matches fileExpr b s ns m ↔ b = true ∧ ∃ file, (∀ c ∈ file, anyChar c = true) ∧
      ∃ r, s = file ++ '(' :: r ∧ ns = [file.length] ∧ m = ⟨file ++ ['('], [], r⟩ := by
  constructor
  · intro h
    obtain ⟨_, _, hbol, _, _, hrest, rfl, rfl⟩ := matches_seq_iff.mp h
    cases hbol
    obtain ⟨file, hfile, r, rfl, rfl, rfl⟩ := matches_star_lit_iff.mp hrest
    exact ⟨rfl, file, hfile, r, rfl, rfl, rfl⟩
  · rintro ⟨rfl, file, hfile, r, rfl, rfl, rfl⟩
    exact .seq (.bol _) (matches_star_lit hfile '(' _ r)

lemma matches_callerExpr_iff :
    Matches callerExpr b s ns m ↔ ∃ x hex, (x = 'x' ∨ x = 'X') ∧ hex ≠ [] ∧
      (∀ c ∈ hex, hexDigit c = true) ∧ ∃ r, s = '0' :: x :: (hex ++ ')' :: r) ∧
        ns = [hex.length - 1] ∧ m = ⟨'0' :: x :: (hex ++ [')']), [], r⟩ := by
  constructor
  · intro h
    obtain ⟨_, _, hzero, _, _, hnumber, rfl, rfl⟩ := matches_seq_iff.mp h
    obtain ⟨r, rfl, rfl, rfl⟩ := matches_lit_iff.mp hzero
    obtain ⟨_, _, hcls, _, _, hhex, rfl, rfl⟩ := matches_seq_iff.mp hnumber
    obtain ⟨x, hx, r, rfl, rfl, rfl⟩ := matches_cls_iff.mp hcls
    obtain ⟨_, _, hplus, _, _, hparen, rfl, rfl⟩ := matches_seq_iff.mp hhex
    obtain ⟨hex, hne, hdigits, r, rfl, rfl, rfl⟩ := matches_plus_iff.mp hplus
    obtain ⟨r, rfl, rfl, rfl⟩ := matches_lit_iff.mp hparen
    exact ⟨x, hex, of_decide_eq_true hx, hne, hdigits, r, rfl, rfl, rfl⟩
  · rintro ⟨x, hex, hx, hne, hdigits, r, rfl, rfl, rfl⟩
    have hhex := fun b => Matches.seq (matches_plus hne hdigits b (')' :: r)) (matches_lit ')' _ r)
    have hnumber := fun b => Matches.seq (.cls (p := fun c => decide (c = 'x' ∨ c = 'X'))
      (decide_eq_true hx) b (hex ++ ')' :: r)) (hhex _)
    exact .seq (matches_lit '0' b (x :: (hex ++ ')' :: r))) (hnumber _)

/-- **Every match is a reading**, and every reading is one. -/
lemma matches_rgx_iff :
    Matches rgx b s ns m ↔ b = true ∧
      ∃ ρ : Reading, ρ.text = s ∧ ρ.counts = ns ∧ ρ.toMatch = m := by
  constructor
  · intro h
    obtain ⟨_, _, hgroup, _, _, hrest, rfl, rfl⟩ := matches_seq_iff.mp h
    obtain ⟨_, hm, rfl⟩ := matches_group_iff.mp hgroup
    obtain ⟨rfl, file, hfile, r, rfl, rfl, rfl⟩ := matches_fileExpr_iff.mp hm
    obtain ⟨_, _, hgroup₂, _, _, hgroup₃, rfl, rfl⟩ := matches_seq_iff.mp hrest
    obtain ⟨_, hm, rfl⟩ := matches_group_iff.mp hgroup₂
    obtain ⟨name, hname, r, rfl, rfl, rfl⟩ := matches_star_lit_iff.mp hm
    obtain ⟨_, hm, rfl⟩ := matches_group_iff.mp hgroup₃
    obtain ⟨x, hex, hx, hne, hdigits, r, rfl, rfl, rfl⟩ := matches_callerExpr_iff.mp hm
    exact ⟨rfl, ⟨file, name, x, hex, r, hfile, hname, hx, hne, hdigits⟩, rfl, rfl, rfl⟩
  · rintro ⟨rfl, ρ, rfl, rfl, rfl⟩
    have hfile : Matches fileExpr true ρ.text _ _ :=
      matches_fileExpr_iff.mpr ⟨rfl, ρ.file, ρ.file_line, _, rfl, rfl, rfl⟩
    have hname : ∀ b r, Matches nameExpr b (ρ.name ++ '+' :: r) _ _ :=
      fun b r => matches_star_lit ρ.name_line '+' b r
    have hcaller : ∀ b, Matches callerExpr b ('0' :: ρ.x :: (ρ.hex ++ ')' :: ρ.tail)) _ _ :=
      fun b => matches_callerExpr_iff.mpr
        ⟨ρ.x, ρ.hex, ρ.x_eq, ρ.hex_ne_nil, ρ.hex_digits, ρ.tail, rfl, rfl, rfl⟩
    exact .seq (.group 1 hfile) (.seq (.group 2 (hname _ _)) (.group 3 (hcaller _)))

lemma anchored_rgx : Anchored rgx := by
  intro s ns m h
  exact absurd (matches_rgx_iff.mp h).1 Bool.false_ne_true

/-! ### Which reading is found -/

variable {cxaDemangle : Str → Option Str} {symbol : Str}

/-- The order in which the matches are tried is the preference among the readings. -/
lemma Reading.preferred_of_ahead {ρ ρ' : Reading} (h : ρ'.text = ρ.text)
    (hahead : Ahead ρ.counts ρ'.counts) : ρ.Preferred ρ' := by
  simp only [counts, ahead_cons_iff] at hahead
  rcases hahead with hfile | ⟨hfile, hname | ⟨hname, hhex⟩⟩
  · exact .inl hfile
  · exact .inr ⟨hfile, hname⟩
  · -- then the two are the same
    obtain rfl := eq_of_length h hfile hname
    exact absurd hhex (by simp [not_ahead_nil])

lemma entry_of_search {ρ : Reading} (h : search rgx symbol = some ρ.toMatch) :
    entry cxaDemangle symbol = ρ.shown cxaDemangle := by
  have hcaller : trim ('0' :: ρ.x :: (ρ.hex ++ [')'])) = '0' :: ρ.x :: ρ.hex :=
    trim_concat ('0' :: ρ.x :: ρ.hex) ')'
  rw [entry, h]
  cases hname : cxaDemangle (cString ρ.name) with
  | none =>
    simp [Reading.toMatch, Match.str, List.lookup_cons, Reading.shown, hname, hcaller]
  | some realname =>
    simp [Reading.toMatch, Match.str, List.lookup_cons, Reading.shown, hname, hcaller]

lemma reads_entry (cxaDemangle : Str → Option Str) (symbol : Str) :
    Reads cxaDemangle symbol (entry cxaDemangle symbol) := by
  have hsearch := search_of_anchored anchored_rgx symbol
  cases hhead : (run rgx true symbol).head? with
  | none =>
    have hnone := run_eq_nil_iff.mp (List.head?_eq_none_iff.mp hhead)
    rw [entry, hsearch, hhead]
    exact .unread fun ρ h => hnone _ _ (matches_rgx_iff.mpr ⟨rfl, ρ, h, rfl, rfl⟩)
  | some m =>
    obtain ⟨ns, hmatch, hfirst⟩ := head?_run_iff.mp hhead
    obtain ⟨-, ρ, rfl, rfl, rfl⟩ := matches_rgx_iff.mp hmatch
    rw [entry_of_search (hsearch.trans hhead)]
    refine .read ρ fun ρ' h' => or_iff_not_imp_left.mpr fun hne => ?_
    rcases hfirst _ _ (matches_rgx_iff.mpr ⟨rfl, ρ', h', rfl, rfl⟩) with ⟨hcounts, -⟩ | hahead
    · simp only [Reading.counts, List.cons.injEq] at hcounts
      exact absurd (Reading.eq_of_length h' hcounts.1 hcounts.2.1) hne
    · exact Reading.preferred_of_ahead h' hahead

lemma Reading.Preferred.asymm {ρ ρ' : Reading} (h : ρ.Preferred ρ') : ¬ ρ'.Preferred ρ := by
  unfold Preferred at *
  omega

/-- A symbol is turned into one text only. -/
lemma Reads.unique {out out' : Str} (h : Reads cxaDemangle symbol out)
    (h' : Reads cxaDemangle symbol out') : out = out' := by
  cases h with
  | unread hnone =>
    cases h' with
    | unread => rfl
    | read ρ => exact absurd rfl (hnone ρ)
  | read ρ hfirst =>
    generalize htext : ρ.text = symbol at h'
    cases h' with
    | unread hnone => exact absurd htext (hnone ρ)
    | read ρ' hfirst' =>
      rcases hfirst ρ' htext.symm with rfl | hpref
      · rfl
      · rcases hfirst' ρ htext with rfl | hpref'
        · rfl
        · exact absurd hpref' hpref.asymm

lemma reads_iff {out : Str} : Reads cxaDemangle symbol out ↔ entry cxaDemangle symbol = out :=
  ⟨(reads_entry cxaDemangle symbol).unique, fun h => h ▸ reads_entry cxaDemangle symbol⟩

/-- **Every symbol is decided.** The trace gets one entry for each symbol, in order: the symbol as
it is if there is no way to read it, else what the preferred one of its readings shows. -/
theorem stackTrace_reads (rt : Runtime) (size : ℕ) (stackMsgVec out : List Str) :
    stackTrace rt size stackMsgVec = stackMsgVec ++ out ↔
      List.Forall₂ (Reads rt.cxaDemangle) (rt.backtraceSymbols ((size + 1) % 2 ^ 32)) out := by
  rw [stackTrace_eq, List.append_right_inj]
  calc (rt.backtraceSymbols _).map (entry rt.cxaDemangle) = out
      ↔ List.Forall₂ (· = ·) ((rt.backtraceSymbols _).map (entry rt.cxaDemangle)) out := by
        rw [List.forall₂_eq_eq_eq]
    _ ↔ List.Forall₂ (fun symbol shown => entry rt.cxaDemangle symbol = shown)
          (rt.backtraceSymbols _) out := List.forall₂_map_left_iff
    _ ↔ List.Forall₂ (Reads rt.cxaDemangle) (rt.backtraceSymbols _) out :=
        ⟨.imp fun _ _ => reads_iff.mpr, .imp fun _ _ => reads_iff.mp⟩

/-- Both parts may contain what separates them. -/
example : entry (fun _ => none) "f(g(operator++0x1F)(+0xg) [0x2]".toList =
    "f(g : operator+()+0x1F".toList := by
  decide

end Ealogger.StackTrace
