import Ealogger.LogMessage
import Mathlib.Algebra.Ring.Nat

/-!
`utility.h`: host name, file name of a path, formatted time.

What the functions ask of the system is an `Env`: the local time, the expansion of a
`strftime` format, the contents of a buffer `strftime` gave up on, and the answer of
`gethostname`.
-/

namespace Ealogger

/-- `struct tm`. -/
structure Tm where
  sec : Int
  min : Int
  hour : Int
  mday : Int
  mon : Int
  year : Int
  wday : Int
  yday : Int
  isdst : Int
  deriving DecidableEq

structure Env where
  /-- `none` is the null pointer `localtime` returns for a time it cannot convert. -/
  localtime : Int → Option Tm
  /-- The full expansion of a format, whatever its length. -/
  expansion : Str → Tm → Str
  /-- What a buffer holds after `strftime` failed on this format and time. -/
  indeterminate : Str → Int → Str
  /-- The contents of the buffer when `gethostname` succeeds. -/
  gethostname : Option Str

/-- A system that converts no time and knows no host name. -/
def Env.bare : Env := ⟨fun _ => none, fun _ _ => [], fun _ _ => [], none⟩

def nul : Char := Char.ofNat 0

/-- The characters before the first NUL: what `c_str()` passes on and what
`std::string(char *)` reads. -/
def cString (s : Str) : Str := s.takeWhile (· ≠ nul)

def getHostname (env : Env) : Str :=
  match env.gethostname with
  | some hchar => cString hchar
  | none => "UNKNOWN".toList

/-- `std::string::npos`, the largest `size_t`. -/
def npos : ℕ := 2 ^ 64 - 1

def findLastOf (s set : Str) : ℕ :=
  match s.reverse.findIdx? (· ∈ set) with
  | some i => s.length - 1 - i
  | none => npos

/-- The addition is one of `size_t`: without a separator `npos + 1` wraps to `0`. -/
def getFileName (absolutePath : Str) : Str :=
  let pos := findLastOf absolutePath ['/', '\\']
  absolutePath.drop ((pos + 1) % 2 ^ 64)

/-- `strftime(buffer, max, format, timeinfo)`: the returned length and the buffer. -/
def strftime (env : Env) (max : ℕ) (format : Str) (t : Int) (timeinfo : Tm) : ℕ × Str :=
  let text := env.expansion format timeinfo
  if text.length < max then (text.length, text ++ [nul]) else (0, env.indeterminate format t)

/-- The returned length is not looked at. `strftime` with the null pointer of a failed
`localtime` is undefined; the buffer is then taken to hold anything. -/
def formatTimeToString (env : Env) (t : Int) (timeFormat : Str) : Str :=
  match env.localtime t with
  | some timeinfo => cString (strftime env 80 (cString timeFormat) t timeinfo).2
  | none => cString (env.indeterminate (cString timeFormat) t)

/-- `std::to_string(int)`. -/
def intToString : Int → Str
  | .ofNat n => Nat.toDigits 10 n
  | .negSucc n => '-' :: Nat.toDigits 10 (n + 1)

example : getFileName "C:\\oh\\look\\log.log".toList = "log.log".toList := by decide
example : getFileName "this_is_the_file.notype".toList = "this_is_the_file.notype".toList := by
  decide

end Ealogger
