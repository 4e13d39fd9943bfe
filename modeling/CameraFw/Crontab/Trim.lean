import CameraFw.Crontab.Load

/-!
# Where blanks are trimmed

The loops of `load_file` and `decode_env` over blanks, as the positions that they touch, counted from
the beginning of `buf`. What lies in front of `buf` is not known: `below` has its bytes, the nearest one
first, up to the end of the memory.
-/

namespace CameraFw.Crontab

open CameraFw.Base

/-! ## The loops -/

/-- `while (isspace(*p)) *p-- = '\0';`, with the bytes from `p` downwards. The last position is only read. -/
def trailingTouches : Int → List UInt8 → List Int
  | p, [] => [p]
  | p, c :: below => if isspace c then p :: trailingTouches (p - 1) below else [p]

/-- `for (; *p != '\0' && isspace(*p); p++);`, with the text from `p` upwards, behind which there is a NUL. -/
def leadingTouches : Int → List UInt8 → List Int
  | p, [] => [p]
  | p, c :: s => if c ≠ 0 ∧ isspace c then p :: leadingTouches (p + 1) s else [p]

/-- `for (; isspace(*r) && r != p; *r-- = '\0');`, with the bytes from `r` downwards. -/
def nameTouches (p : Int) : Int → List UInt8 → List Int
  | r, [] => [r]
  | r, c :: below => if isspace c ∧ r ≠ p then r :: nameTouches p (r - 1) below else [r]

/-! ## One line -/

/-- The loop over the blanks at the end of a line; it begins at the newline. -/
def trailing (below line : List UInt8) : List Int :=
  trailingTouches line.length (10 :: (line.reverse ++ below))

/-- What it leaves of the line. All that it touches is erased, but for the last position. -/
def afterTrailing (below line : List UInt8) : List UInt8 :=
  line.take (line.length + 1 - ((trailing below line).length - 1))

def leading (below line : List UInt8) : List Int := leadingTouches 0 (afterTrailing below line)

/-- Where the text begins. -/
def textStart (line : List UInt8) : Nat := (line.takeWhile isspace).length

/-- The part of a setting in front of its first `=`, if `decode_env` finds one. -/
def nameOf (line : List UInt8) : Option (List UInt8 × List UInt8) :=
  match lineKind line with
  | .setting p => if 61 ∈ p then some (p.takeWhile (· ≠ 61), (p.dropWhile (· ≠ 61)).tail) else none
  | _ => none

/-- The loop of `decode_env` over the blanks behind the name; it begins in front of the `=`. -/
def nameTrimming (below line : List UInt8) : List Int :=
  match nameOf line with
  | some (name, _) =>
      nameTouches (textStart line) (textStart line + name.length - 1)
        (name.reverse ++ (line.take (textStart line)).reverse ++ below)
  | none => []

/-- Its loop over the blanks in front of the value. -/
def valueTrimming (line : List UInt8) : List Int :=
  match nameOf line with
  | some (name, val) => leadingTouches (textStart line + name.length + 1) val
  | none => []

/-- Everything stays within the text of the line and its end, and the name is not left at its front. -/
structure TrimsInside (below line : List UInt8) : Prop where
  trailing : ∀ x ∈ trailing below line, 0 ≤ x ∧ x ≤ line.length
  leading : ∀ x ∈ leading below line, 0 ≤ x ∧ x ≤ line.length
  name : ∀ x ∈ nameTrimming below line, (textStart line : Int) ≤ x ∧ x ≤ line.length
  value : ∀ x ∈ valueTrimming line, 0 ≤ x ∧ x ≤ line.length

/-! ## The whole file -/

/-- The text that `fdgets` brings in a round is a line that is looked at. -/
def lineOf (bufsiz : Nat) (rest : List UInt8) : Option (List UInt8) :=
  let text := (fdgets (bufsiz - 1) rest).1
  if 10 ∈ cstr text then some (text.takeWhile (· ≠ 10)) else none

/-- The lines that `load_file` looks at, with the number of their round. -/
def IsLine (db : Passwd) (bufsiz : Nat) (content : List UInt8) (mtime : Int) (n : Nat)
    (line : List UInt8) : Prop :=
  ∃ s, head (fun _ : Unit => loadPass db bufsiz) (fun _ => ()) (content, ⟨[], defaultEnv, mtime⟩) n = some s ∧
    lineOf bufsiz s.1 = some line

end CameraFw.Crontab
