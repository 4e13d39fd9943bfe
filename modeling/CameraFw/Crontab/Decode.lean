import CameraFw.Base.CString

/-!
# One line of the crontab

What `cron.c` makes of a line that it has read: a job (`decode_line`) or a setting of the environment
(`decode_env`). Allocations succeed. A failed decoding frees the job it has begun, so that only its
failure remains.
-/

namespace CameraFw.Crontab

open CameraFw.Base

/-! ## Bit strings -/

abbrev Bitstr := List UInt8

def bitDecl (nbits : Nat) : Bitstr := List.replicate ((nbits - 1) / 8 + 1) 0

def bitSet (bits : Bitstr) (i : Nat) : Bitstr := bits.modify (i / 8) (· ||| UInt8.ofNat (1 <<< (i % 8)))

/-- `bit_nclear`. The masks are cut off to a byte when they meet the byte they clear. -/
def bitNclear (bits : Bitstr) (start stop : Nat) : Bitstr :=
  let low := UInt8.ofNat (0xff >>> (8 - start % 8))
  let high := UInt8.ofNat (0xff <<< (stop % 8 + 1))
  bits.mapIdx fun k b =>
    if start / 8 = stop / 8 then (if k = start / 8 then b &&& (low ||| high) else b)
    else if k = start / 8 then b &&& low
    else if start / 8 < k ∧ k < stop / 8 then 0
    else if k = stop / 8 then b &&& high
    else b

/-! ## Time fields -/

/-- `loc_string`: the abbreviation at the front, and what follows it; -1 if there is none. -/
def locString (s : List UInt8) (abbrs : List (List UInt8)) : Int × List UInt8 :=
  match abbrs.findIdx? (· = (s.take 3).map tolower) with
  | some i => (i, s.drop 3)
  | none => (-1, s)

/-- What a time field allows: the number of its bits, its abbreviations and the value that stands for zero. -/
structure FieldSpec where
  nbits : Nat
  abbrs : Option (List (List UInt8))
  zerov : Int

def FieldSpec.base (f : FieldSpec) : Int := if f.zerov < 0 then 1 else 0

def FieldSpec.value (f : FieldSpec) (str : List UInt8) : Option (Int × List UInt8) :=
  let read : Option (Int × List UInt8) :=
    if isdigit (str.headD 0) then some ((strtol str).1, (strtol str).2) else f.abbrs.map (locString str)
  match read with
  | none => none
  | some (v, str) =>
      let v := if v = f.zerov then 0 else v
      if v < f.base ∨ v ≥ f.nbits then none else some (v, str)

def FieldSpec.range (f : FieldSpec) (str : List UInt8) : Option (Int × Int × List UInt8) :=
  if str.head? = some 42 then some (f.base, f.nbits - 1, str.tail)
  else
    match f.value str with
    | none => none
    | some (sval, str) =>
        if str.head? = some 45 then
          match f.value str.tail with
          | none => none
          | some (eval, str) => if eval < sval then some (eval, sval, str) else some (sval, eval, str)
        else some (sval, sval, str)

/-- The increment behind a range; what follows it is not looked at. -/
def increment (sval eval : Int) (str : List UInt8) : Option Nat :=
  if str.head? = some 47 then
    if isdigit (str.tail.headD 0) then
      if (atoi str.tail : Int) ≤ 0 ∨ (atoi str.tail : Int) > eval - sval then none else some (atoi str.tail)
    else none
  else some 1

/-- `for (i=sval; i<=eval; i+=step) bit_set(bits, i)`, whose rounds are at most `eval - sval + 1`. -/
def bitSetEvery (step eval : Nat) : Nat → Nat → Bitstr → Bitstr
  | 0, _, bits => bits
  | n + 1, i, bits => if i ≤ eval then bitSetEvery step eval n (i + step) (bitSet bits i) else bits

def FieldSpec.elem (f : FieldSpec) (str : List UInt8) (bits : Bitstr) : Option Bitstr :=
  match f.range str with
  | none => none
  | some (sval, eval, str) =>
      match increment sval eval str with
      | none => none
      | some step => some (bitSetEvery step eval.toNat (eval.toNat + 1 - sval.toNat) sval.toNat bits)

/-- The loop over the elements, which `strchr` has cut at the commas. It ends when nothing is left
behind a comma. -/
def FieldSpec.elems (f : FieldSpec) : List (List UInt8) → Bitstr → Option Bitstr
  | [], bits => some bits
  | [[]], bits => some bits
  | str :: strs, bits =>
      match f.elem str bits with
      | none => none
      | some bits => f.elems strs bits

def decodeElem (f : FieldSpec) (str : List UInt8) (bits : Bitstr) : Option Bitstr :=
  f.elems (str.splitOn 44) (bitNclear bits f.base.toNat (f.nbits - 1))

def monthNames : List (List UInt8) :=
  ["xxx", "jan", "feb", "mar", "apr", "may", "jun", "jul", "aug", "sep", "oct", "nov", "dec"].map ascii

def dayNames : List (List UInt8) := ["sun", "mon", "tue", "wed", "thu", "fri", "sat"].map ascii

def minutesField : FieldSpec := ⟨60, none, 0⟩
def hoursField : FieldSpec := ⟨24, none, 0⟩
def domField : FieldSpec := ⟨32, none, -1⟩
def monthsField : FieldSpec := ⟨13, some monthNames, -1⟩
def dowField : FieldSpec := ⟨7, some dayNames, 7⟩

/-! ## The environment -/

abbrev Env := List (List UInt8 × List UInt8)

def setFirst (name val : List UInt8) : Env → Env
  | [] => []
  | p :: env => if p.1 = name then (p.1, val) :: env else p :: setFirst name val env

def stoenv (env : Env) (name val : List UInt8) : Env :=
  if env.any (·.1 = name) then setFirst name val env else (name, val) :: env

def clrenv (env : Env) (name : List UInt8) : Env := env.eraseP (·.1 = name)

def cloneenv (env : Env) : List (List UInt8) := env.map fun p => p.1 ++ 61 :: p.2

/-- The blanks before the `=` are cleared, but never the first character of the name. -/
def trimName : List UInt8 → List UInt8
  | [] => []
  | c :: s => c :: trimEnd s

/-- `decode_env`. Its check for an empty name looks at a character that is never cleared. -/
def decodeEnv (env : Env) (p : List UInt8) : Option Env :=
  if 61 ∈ p then
    let name := trimName (p.takeWhile (· ≠ 61))
    let val := trimStart (p.dropWhile (· ≠ 61)).tail
    some (if val = [] then clrenv env name else stoenv env name val)
  else none

/-! ## Jobs -/

structure Centry where
  username : List UInt8
  prog : List UInt8
  environ : List (List UInt8)
  user : Nat
  minutes : Bitstr
  hours : Bitstr
  dom : Bitstr
  months : Bitstr
  dow : Bitstr
  deriving DecidableEq, Repr

/-- The database of users: the name for a number, the name and the number for a name. -/
structure Passwd where
  getpwuid : Nat → Option (List UInt8)
  getpwnam : List UInt8 → Option (List UInt8 × Nat)

def decodeUser (db : Passwd) (p : List UInt8) : Option (List UInt8 × Nat) :=
  if isdigit (p.headD 0) then
    match db.getpwuid (atoi p) with
    | none => some (ascii "user" ++ itoa (atoi p), atoi p)
    | some name => some (name, atoi p)
  else db.getpwnam p

def blanks : List UInt8 := ascii " \t"

def decodeField (f : FieldSpec) (line : List UInt8) : Option (Bitstr × List UInt8) :=
  match strtok blanks line with
  | none => none
  | some (str, line) => (decodeElem f str (bitDecl f.nbits)).map fun bits => (bits, line)

/-- `decode_line`, up to the link into the list. -/
def decodeLine (db : Passwd) (env : Env) (line : List UInt8) : Option Centry := do
  let (minutes, line) ← decodeField minutesField line
  let (hours, line) ← decodeField hoursField line
  let (dom, line) ← decodeField domField line
  let (months, line) ← decodeField monthsField line
  let (dow, line) ← decodeField dowField line
  let (p, line) ← strtok blanks line
  let (username, user) ← decodeUser db p
  let (prog, _) ← strtok [] line
  some { username, prog, environ := cloneenv env, user, minutes, hours, dom, months, dow }

end CameraFw.Crontab
