import CameraFw.Base.Loop
import CameraFw.Crontab.Decode

/-!
# The command of a job

`cron-parent.c` is started for each job. `parseargs` turns the command of the crontab into the words of
a command line and the text of the standard input, and `sendstdin` sends that text. The search for the
executable is not modelled.
-/

namespace CameraFw.Crontab

open CameraFw.Base

/-! ## Percent signs -/

/-- The buffer with the command, and the places where `parseargs` writes and reads. -/
structure Mangle where
  args : List UInt8
  p : Nat
  q : Nat
  deriving DecidableEq, Repr

/-- One round of the loop that mangles out the `%` characters. -/
def manglePass (m : Mangle) : Pass Mangle (List UInt8) :=
  let c := m.args.getD m.q 0
  if c = 0 then .leave m.args
  else if c = 37 then
    if m.args.getD (m.q + 1) 0 = 37 then .again ⟨m.args.set m.p c, m.p + 1, m.q + 2⟩
    else .again ⟨m.args.set m.p 10, m.p + 1, m.q + 1⟩
  else .again ⟨m.args.set m.p c, m.p + 1, m.q + 1⟩

/-- The buffer behind the loop; a round reads at least one character. -/
def mangle (args : List UInt8) : Option (List UInt8) :=
  whileLoop (fun _ : Unit => manglePass) (fun _ => ()) (args.length + 1) 0 ⟨args ++ [0], 0, 0⟩

/-- A text up to its first newline, and what follows that. -/
def cutLine (text : List UInt8) : List UInt8 × Option (List UInt8) :=
  if 10 ∈ text then (text.takeWhile (· ≠ 10), some (text.dropWhile (· ≠ 10)).tail) else (text, none)

/-- The command line and `stdinstr`, as `parseargs` finds them in the buffer. -/
def commandLine (args : List UInt8) : Option (List UInt8 × Option (List UInt8)) :=
  (mangle args).map fun buffer => cutLine (cstr buffer)

/-! ## Words -/

inductive Failure where
  | noCommand | multipleOutput | noOutputFile
  deriving DecidableEq, Repr

structure Words where
  av : List (List UInt8)
  outfile : Option (List UInt8)
  deriving DecidableEq, Repr

/-- One round of the loop over the words: the rest of the command line, and the words so far. -/
def wordsPass (s : List UInt8 × Words) : Pass (List UInt8 × Words) (Except Failure Words) :=
  let (rest, w) := s
  if w.av.length < 100 then
    match strtok blanks rest with
    | none => .leave (.ok w)
    | some (p, rest) =>
        if p.head? = some 62 then
          if w.outfile.isSome then .leave (.error .multipleOutput)
          else if p.tail = [] then
            match strtok blanks rest with
            | none => .leave (.error .noOutputFile)
            | some (name, rest) => .again (rest, { w with outfile := some name })
          else .again (rest, { w with outfile := some p.tail })
        else .again (rest, { w with av := w.av ++ [p] })
  else .leave (.ok w)

def buildWords (command : List UInt8) : Option (Except Failure Words) :=
  match strtok blanks command with
  | none => some (.error .noCommand)
  | some (p, rest) =>
      whileLoop (fun _ : Unit => wordsPass) (fun _ => ()) (rest.length + 1) 0 (rest, ⟨[p], none⟩)

structure Parsed where
  words : Words
  stdinstr : Option (List UInt8)
  deriving DecidableEq, Repr

/-- `parseargs`, up to the search for the executable. -/
def parseargs (args : List UInt8) : Option (Except Failure Parsed) := do
  let (command, stdinstr) ← commandLine args
  let words ← buildWords command
  some (words.map fun words => ⟨words, stdinstr⟩)

/-! ## Standard input -/

/-- One round of the loop in `sendstdin`: the characters sent so far. `write` fails, or takes some of
those that are left. -/
def sendPass (stdinstr : List UInt8) (res : Option Nat) (sent : List UInt8) :
    Pass (List UInt8) (List UInt8) :=
  if sent.length < stdinstr.length then
    match res with
    | none => .leave sent
    | some n => .again (sent ++ (stdinstr.drop sent.length).take n)
  else .leave sent

/-- All that `sendstdin` sends; the character before an empty text is the NUL of the command line. -/
def sendstdin (stdinstr : List UInt8) (write : Nat → Option Nat) (fuel : Nat) : Option (List UInt8) :=
  (whileLoop (sendPass stdinstr) write fuel 0 []).map fun sent =>
    if stdinstr.getLastD 0 ≠ 10 then sent ++ [10] else sent

/-! ## What the command means -/

/-- Each `%%` is a `%`, each other `%` a newline. -/
def translate : List UInt8 → List UInt8
  | [] => []
  | [c] => [if c = 37 then 10 else c]
  | c :: d :: s =>
      if c = 37 then if d = 37 then 37 :: translate s else 10 :: translate (d :: s)
      else c :: translate (d :: s)

end CameraFw.Crontab
