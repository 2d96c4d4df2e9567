import Ealogger.Lib.Regex
import Ealogger.Sink

/-!
`stack_trace` takes the symbols of a stack apart.

`backtrace_symbols` writes `FILE(NAME+0xHEX) [ADDRESS]`, and the file may contain any of the
delimiters. The three groups of the regular expression compete for the text; the split that
backtracking comes upon first is at the last parenthesis and the last plus.
-/

namespace Ealogger.StackTrace

open Regex

/-- What `stack_trace` asks of the C library and of the C++ runtime. A C string is the list of
its characters. -/
structure Runtime where
  /-- `backtrace` into an array of this many addresses, then `backtrace_symbols`. -/
  backtraceSymbols : ℕ → List Str
  /-- `none` is a status other than `0`. -/
  cxaDemangle : Str → Option Str

/-- `.`, which is anything but a line terminator. -/
def anyChar (c : Char) : Bool := c ≠ '\n' ∧ c ≠ '\r'

/-- `[0-9a-fA-F]` -/
def hexDigit (c : Char) : Bool :=
  ('0' ≤ c ∧ c ≤ '9') ∨ ('a' ≤ c ∧ c ≤ 'f') ∨ ('A' ≤ c ∧ c ≤ 'F')

/-- `^.*\(` -/
def fileExpr : Expr Char := .seq .bol (.seq (.star anyChar) (lit '('))

/-- `.*\+` -/
def nameExpr : Expr Char := .seq (.star anyChar) (lit '+')

/-- `0[xX][0-9a-fA-F]+\)` -/
def callerExpr : Expr Char :=
  .seq (lit '0') (.seq (.cls fun c => c = 'x' ∨ c = 'X') (.seq (plus hexDigit) (lit ')')))

def rgx : Expr Char := .seq (.group 1 fileExpr) (.seq (.group 2 nameExpr) (.group 3 callerExpr))

/-- `s.substr(0, s.size() - 1)`, for a string that is not empty. -/
def trim (s : Str) : Str := s.take (s.length - 1)

/-- What the body of the loop appends for a symbol. -/
def entry (cxaDemangle : Str → Option Str) (symbol : Str) : Str :=
  match search rgx symbol with
  | none => symbol
  | some m =>
    let file := trim (m.str 1)
    let mangledName := trim (m.str 2)
    let caller := trim (m.str 3)
    match cxaDemangle (cString mangledName) with
    | some realname => file ++ " : ".toList ++ realname ++ "+".toList ++ caller
    | none => file ++ " : ".toList ++ mangledName ++ "()".toList ++ "+".toList ++ caller

/-- `stack_trace` as it is compiled against glibc; without it the body is empty. The size is an
`unsigned int`, and so is the length of `addrlist`. -/
def stackTrace (rt : Runtime) (size : ℕ) (stackMsgVec : List Str) : List Str :=
  (rt.backtraceSymbols ((size + 1) % 2 ^ 32)).foldl
    (fun v symbol => v ++ [entry rt.cxaDemangle symbol]) stackMsgVec

/-- A symbol in the format of glibc. Its tail may even go on over several lines. -/
structure Symbol where
  file : Str
  name : Str
  hex : Str
  tail : Str
  file_line : ∀ c ∈ file, anyChar c = true
  name_line : ∀ c ∈ name, anyChar c = true
  name_plain : '(' ∉ name
  hex_ne_nil : hex ≠ []
  hex_digits : ∀ c ∈ hex, hexDigit c = true
  tail_plain : '(' ∉ tail ∧ '+' ∉ tail

namespace Symbol

/-- What `backtrace_symbols` writes. -/
def text (σ : Symbol) : Str :=
  σ.file ++ "(".toList ++ σ.name ++ "+0x".toList ++ σ.hex ++ ")".toList ++ σ.tail

/-- What is shown to the reader of the log. -/
def shown (cxaDemangle : Str → Option Str) (σ : Symbol) : Str :=
  σ.file ++ " : ".toList ++ (cxaDemangle (cString σ.name)).getD (σ.name ++ "()".toList) ++
    "+0x".toList ++ σ.hex

end Symbol

structure Inverts (rt : Runtime) : Prop where
  /-- One entry for each symbol, in the same order. -/
  entries : ∀ size stackMsgVec, stackTrace rt size stackMsgVec =
    stackMsgVec ++ (rt.backtraceSymbols ((size + 1) % 2 ^ 32)).map (entry rt.cxaDemangle)
  unmatched : ∀ symbol, search rgx symbol = none → entry rt.cxaDemangle symbol = symbol
  parsed : ∀ σ : Symbol, entry rt.cxaDemangle σ.text = σ.shown rt.cxaDemangle
  /-- No `size() - 1` underflows. -/
  nonempty : ∀ symbol m, search rgx symbol = some m → ∀ n ∈ [1, 2, 3], 0 < (m.str n).length

@[simp] lemma trim_concat (s : Str) (c : Char) : trim (s ++ [c]) = s := by
  simp [trim]

lemma ne_paren_of_hexDigit {c : Char} (h : hexDigit c = true) : c ≠ '(' ∧ c ≠ '+' := by
  constructor <;> rintro rfl <;> revert h <;> decide

variable (σ : Symbol)

/-- The hexadecimal digits, the closing parenthesis and the tail contain no other delimiter. -/
lemma Symbol.rest_plain : ∀ c ∈ '0' :: 'x' :: (σ.hex ++ ')' :: σ.tail), c ≠ '(' ∧ c ≠ '+' := by
  intro c hc
  simp only [List.mem_cons, List.mem_append] at hc
  rcases hc with rfl | rfl | hhex | rfl | htail
  · decide
  · decide
  · exact ne_paren_of_hexDigit (σ.hex_digits c hhex)
  · decide
  · exact ⟨fun h => σ.tail_plain.1 (h ▸ htail), fun h => σ.tail_plain.2 (h ▸ htail)⟩

lemma head?_file (v : Str) (hv : '(' ∉ v) :
    (run fileExpr true (σ.file ++ '(' :: v)).head? = some ⟨σ.file ++ ['('], [], v⟩ := by
  have hbol : (run .bol true (σ.file ++ '(' :: v)).head? = some ⟨[], [], σ.file ++ '(' :: v⟩ := rfl
  exact head?_seq hbol (head?_star_lit σ.file_line hv)

lemma head?_name (b : Bool) (v : Str) (hv : '+' ∉ v) :
    (run nameExpr b (σ.name ++ '+' :: v)).head? = some ⟨σ.name ++ ['+'], [], v⟩ :=
  head?_star_lit σ.name_line hv

lemma head?_caller (b : Bool) :
    (run callerExpr b ('0' :: 'x' :: (σ.hex ++ ')' :: σ.tail))).head? =
      some ⟨'0' :: 'x' :: (σ.hex ++ [')']), [], σ.tail⟩ := by
  have hhex : ∀ b, (run (plus hexDigit) b (σ.hex ++ ')' :: σ.tail)).head? =
      some ⟨σ.hex, [], ')' :: σ.tail⟩ := by
    intro b
    refine head?_plus σ.hex_ne_nil σ.hex_digits fun c hc => ?_
    cases hc
    decide
  exact head?_seq (head?_cls rfl) (head?_seq (head?_cls rfl) (head?_seq (hhex _) (head?_cls rfl)))

lemma Symbol.text_eq :
    σ.text = σ.file ++ '(' :: (σ.name ++ '+' :: '0' :: 'x' :: (σ.hex ++ ')' :: σ.tail)) := by
  simp [Symbol.text]

/-- The split that the search comes upon first is the one the symbol was made of. -/
lemma search_text :
    search rgx σ.text = some
      ⟨σ.file ++ ['('] ++ (σ.name ++ ['+'] ++ '0' :: 'x' :: (σ.hex ++ [')'])),
        [(1, σ.file ++ ['(']), (2, σ.name ++ ['+']), (3, '0' :: 'x' :: (σ.hex ++ [')']))],
        σ.tail⟩ := by
  have hname : '(' ∉ σ.name ++ '+' :: '0' :: 'x' :: (σ.hex ++ ')' :: σ.tail) := by
    intro h
    rcases List.mem_append.mp h with h | h
    · exact σ.name_plain h
    · rcases List.mem_cons.mp h with h | h
      · exact absurd h (by decide)
      · exact (σ.rest_plain _ h).1 rfl
  have hrest : '+' ∉ '0' :: 'x' :: (σ.hex ++ ')' :: σ.tail) := fun h => (σ.rest_plain _ h).2 rfl
  rw [σ.text_eq]
  exact search_of_head? (head?_seq (head?_group 1 (head?_file σ _ hname))
    (head?_seq (head?_group 2 (head?_name σ _ _ hrest)) (head?_group 3 (head?_caller σ _))))

lemma consumes_fileExpr : Consumes fileExpr := ((consumes_cls _).seq _).seq _

lemma consumes_nameExpr : Consumes nameExpr := (consumes_cls _).seq _

lemma consumes_callerExpr : Consumes callerExpr := (((consumes_cls _).seq _).seq _).seq _

lemma stackTrace_eq (rt : Runtime) (size : ℕ) (stackMsgVec : List Str) :
    stackTrace rt size stackMsgVec =
      stackMsgVec ++ (rt.backtraceSymbols ((size + 1) % 2 ^ 32)).map (entry rt.cxaDemangle) := by
  rw [stackTrace, List.foldl_append_eq_append, ← List.flatMap_def, ← List.map_eq_flatMap]

lemma entry_text (cxaDemangle : Str → Option Str) :
    entry cxaDemangle σ.text = σ.shown cxaDemangle := by
  have hcaller : trim ('0' :: 'x' :: (σ.hex ++ [')'])) = '0' :: 'x' :: σ.hex :=
    trim_concat ('0' :: 'x' :: σ.hex) ')'
  rw [entry, search_text]
  cases h : cxaDemangle (cString σ.name) with
  | none => simp [Match.str, List.lookup_cons, Symbol.shown, h, hcaller]
  | some realname => simp [Match.str, List.lookup_cons, Symbol.shown, h, hcaller]

/-- **Symbols are taken apart where they were put together**, whatever the file is called. -/
theorem stackTrace_inverts (rt : Runtime) : Inverts rt where
  entries := stackTrace_eq rt
  unmatched symbol h := by
    rw [entry, h]
  parsed σ := entry_text σ rt.cxaDemangle
  nonempty symbol m h n hn := by
    simp only [List.mem_cons, List.not_mem_nil, or_false] at hn
    rcases hn with rfl | rfl | rfl
    · exact length_str_pos h rfl consumes_fileExpr
    · exact length_str_pos h rfl consumes_nameExpr
    · exact length_str_pos h rfl consumes_callerExpr

/-- The parenthesis and the plus of the file are kept, and a name that does not demangle gets a
pair of parentheses. -/
example : entry (fun _ => none) "a(+.so(f+0x1D) [0x40]".toList = "a(+.so : f()+0x1D".toList := by
  decide

/-- What a sink is given to write for a stack message, which no minimum level holds back. -/
theorem prepareLogMessage_stackTrace (rt : Runtime) (env : Env) {s : Sink}
    (hs : s.enabled = true) (now : Int) (msg file func : Str) (lnumber : Int) :
    s.prepareLogMessage env
        (LogMessage.build now (stackTrace rt 10 []) msg .ealStack file lnumber func) =
      some ("Stacktrace \n".toList ++
        ((rt.backtraceSymbols 11).map (entry rt.cxaDemangle)).flatMap (· ++ ['\n'])) := by
  have hsize : (10 + 1) % 2 ^ 32 = 11 := by norm_num
  have hbuild : LogMessage.build now (stackTrace rt 10 []) msg .ealStack file lnumber func =
      ⟨now, .ealStack, [], stackTrace rt 10 [], .stack, file, lnumber, func⟩ := if_pos rfl
  rw [hbuild, stackTrace_eq, hsize, List.nil_append, Sink.prepareLogMessage_eq,
    if_pos (by simp [Sink.accepts, hs]), Sink.text, if_pos rfl]
  rfl

end Ealogger.StackTrace
