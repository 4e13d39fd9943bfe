import CameraFw.Crontab.Load

/-!
# What a crontab says about the environment

The variables of a job are the defaults and the assignments above it. The list that `load_file` keeps
and the block that `cloneenv` copies it into are compared with them in `Lemmas.Environ`.
-/

namespace CameraFw.Crontab

open CameraFw.Base

/-! ## The variables below some lines -/

abbrev Vars := List UInt8 → Option (List UInt8)

def defaults : Vars := fun name =>
  if name = ascii "SHELL" then some (ascii "/bin/sh")
  else if name = ascii "PATH" then some (ascii "/bin:/usr/bin:/etc")
  else none

/-- The name before the first `=` of a setting and the text behind it, without the blanks around the `=`. -/
def assignment (line : List UInt8) : Option (List UInt8 × List UInt8) :=
  match lineKind line with
  | .setting p =>
      if 61 ∈ p then some (trimEnd (p.takeWhile (· ≠ 61)), trimStart (p.dropWhile (· ≠ 61)).tail) else none
  | _ => none

/-- The last assignment of a name holds, and one of nothing removes the variable. -/
def varsBelow (lines : List (List UInt8)) : Vars := fun name =>
  match ((lines.filterMap assignment).filter (·.1 = name)).getLast? with
  | none => defaults name
  | some (_, val) => if val = [] then none else some val

/-- The strings say what the variables are, each of them once. -/
structure EnvironOf (vars : Vars) (environ : List (List UInt8)) : Prop where
  once : (environ.map (·.takeWhile (· ≠ 61))).Nodup
  exactly : ∀ s, s ∈ environ ↔ ∃ name val, vars name = some val ∧ s = name ++ 61 :: val

/-! ## The environment below some lines -/

def Env.after (env : Env) (line : List UInt8) : Env :=
  match lineKind line with
  | .setting p => (decodeEnv env p).getD env
  | _ => env

def envBelow (lines : List (List UInt8)) : Env := lines.foldl Env.after defaultEnv

/-- The jobs of the lines without their environment, each behind the lines above it. -/
def jobLines (db : Passwd) : List (List UInt8) → List (List UInt8) → List (List (List UInt8) × Centry)
  | _, [] => []
  | above, line :: lines =>
      match lineKind line with
      | .job p => (decodeLine db [] p).toList.map (above, ·) ++ jobLines db (above ++ [line]) lines
      | _ => jobLines db (above ++ [line]) lines

/-! ## The block of `cloneenv` -/

/-- The block: for each pointer where it points to among the characters, and the characters. -/
structure Procenv where
  ptrs : List Nat
  chars : List UInt8
  deriving DecidableEq, Repr

/-- One round of the second loop. The names and values end at their NUL, which is not copied. -/
def Procenv.copy (b : Procenv) (p : List UInt8 × List UInt8) : Procenv :=
  ⟨b.ptrs ++ [b.chars.length], b.chars ++ (cstr p.1 ++ 61 :: (cstr p.2 ++ [0]))⟩

def procenv (env : Env) : Procenv := env.foldl Procenv.copy ⟨[], []⟩

/-- The first loop: how many characters are allocated. -/
def procenvSize (env : Env) : Nat := (env.map fun p => (cstr p.1).length + (cstr p.2).length + 2).sum

def Procenv.strings (b : Procenv) : List (List UInt8) := b.ptrs.map fun x => cstr (b.chars.drop x)

end CameraFw.Crontab
