import CameraFw.Base.Loop
import CameraFw.Crontab.Decode

/-!
# Loading the crontab

`load_file` reads the crontab line by line into the list of jobs, unless the file is as old as the one
it has read last. Its log is not kept (`LOGFILE` is not defined), and its reads of a file it has opened
do not fail.
-/

namespace CameraFw.Crontab

open CameraFw.Base

/-! ## Lines -/

/-- `fdgets`, with room for `i` characters and the final NUL: the text it has read, what is left of the
file, and whether there may be more. -/
def fdgets : Nat → List UInt8 → List UInt8 × List UInt8 × Bool
  | 0, s => ([], s, true)
  | i + 1, [] => (if i + 1 > 1 then [10] else [], [], false)
  | i + 1, ch :: s =>
      if ch = 10 then ([ch], s, true)
      else (ch :: (fdgets i s).1, (fdgets i s).2)

inductive LineKind where
  | skipped
  | job (p : List UInt8)
  | setting (p : List UInt8)
  deriving DecidableEq, Repr

/-- A line without its newline. The loop over the blanks at its end leaves the buffer when there is
nothing else in the line; it does not come back. -/
def lineKind (line : List UInt8) : LineKind :=
  match trimStart (trimEnd line) with
  | [] => .skipped
  | c :: p => if c = 35 then .skipped else if isdigit c ∨ c = 42 then .job (c :: p) else .setting (c :: p)

/-! ## `load_file` -/

/-- The static data of `cron`: the jobs, the last one first, the environment that is built up, and the
time of the file it has read last. -/
structure Cron where
  tasklist : List Centry
  env : Env
  fileMtime : Int
  deriving DecidableEq, Repr

def Cron.init : Cron := ⟨[], [], 0⟩

def Cron.decode (db : Passwd) (c : Cron) (line : List UInt8) : Cron :=
  match lineKind line with
  | .skipped => c
  | .job p => { c with tasklist := (decodeLine db c.env p).toList ++ c.tasklist }
  | .setting p => { c with env := (decodeEnv c.env p).getD c.env }

/-- One round of the loop: the file that is left to read, and `cron`. It fails when the text has no
newline, or only one behind a NUL. -/
def loadPass (db : Passwd) (bufsiz : Nat) (s : List UInt8 × Cron) : Pass (List UInt8 × Cron) (Bool × Cron) :=
  let (text, rest, moreinput) := fdgets (bufsiz - 1) s.1
  if 10 ∈ cstr text then
    let c := s.2.decode db (text.takeWhile (· ≠ 10))
    if moreinput then .again (rest, c) else .leave (true, { c with env := [] })
  else .leave (false, s.2)

def defaultEnv : Env :=
  stoenv (stoenv [] (ascii "SHELL") (ascii "/bin/sh")) (ascii "PATH") (ascii "/bin:/usr/bin:/etc")

structure Stat where
  ino : Nat
  dev : Nat
  uid : Nat
  mode : Nat
  mtime : Int
  deriving DecidableEq, Repr

structure Opened where
  lst : Option Stat
  fst : Option Stat
  content : List UInt8

def S_IFREG : Nat := 0o100000
def S_IWGRP : Nat := 0o020
def S_IWOTH : Nat := 0o002

def permitted (lst fst : Stat) : Bool :=
  lst.mode &&& S_IFREG ≠ 0 ∧ fst.ino = lst.ino ∧ fst.dev = lst.dev ∧ fst.uid = 0 ∧
    fst.mode &&& (S_IWGRP ||| S_IWOTH) = 0

/-- `load_file`: whether it returns non-zero, and `cron` afterwards. A round takes at least one
character of the file, so that the rounds are enough (`loadFile_isSome`). -/
def loadFile (db : Passwd) (bufsiz : Nat) (c : Cron) : Option Opened → Option (Bool × Cron)
  | none => some (false, c)
  | some o =>
      match o.lst, o.fst with
      | some lst, some fst =>
          if permitted lst fst then
            if fst.mtime = c.fileMtime then some (true, c)
            else
              whileLoop (fun _ : Unit => loadPass db bufsiz) (fun _ => ()) (o.content.length + 1) 0
                (o.content, ⟨[], defaultEnv, fst.mtime⟩)
          else some (false, c)
      | _, _ => some (false, c)

/-! ## What a crontab says -/

/-- The jobs of the lines, in their order, each with the environment set up by the lines before it. -/
def jobs (db : Passwd) : Env → List (List UInt8) → List Centry
  | _, [] => []
  | env, line :: lines =>
      match lineKind line with
      | .skipped => jobs db env lines
      | .job p => (decodeLine db env p).toList ++ jobs db env lines
      | .setting p => jobs db ((decodeEnv env p).getD env) lines

def crontabJobs (db : Passwd) (content : List UInt8) : List Centry := jobs db defaultEnv (content.splitOn 10)

/-! ## Edits and loads -/

structure File where
  stat : Stat
  content : List UInt8
  deriving DecidableEq, Repr

structure Sys where
  file : Option File
  cron : Cron

inductive Event where
  | write (f : File)
  | remove
  | load (lst : Option Stat)
  deriving DecidableEq, Repr

def Sys.load (db : Passwd) (bufsiz : Nat) (s : Sys) (lst : Option Stat) : Option (Bool × Cron) :=
  loadFile db bufsiz s.cron (s.file.map fun f => ⟨lst, some f.stat, f.content⟩)

def step (db : Passwd) (bufsiz : Nat) (s : Sys) : Event → Option Sys
  | .write f => some { s with file := some f }
  | .remove => some { s with file := none }
  | .load lst => (s.load db bufsiz lst).map fun r => { s with cron := r.2 }

end CameraFw.Crontab
