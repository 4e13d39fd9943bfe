import CameraFw.Base.Loop

/-!
# The lock of the SMB programs

Any number of processes of one program, `smbc_rec` or `smbc_put`, each of which calls `lock_smb_fd` on
the lock file of the program before it works. A step is one statement of one process, together with what
the kernel answers to the call in it; a process may also be killed anywhere. The lock belongs to the
open file description of a process and is released when its descriptor is closed.
-/

namespace CameraFw.Lock

inductive Program where
  | smbcRec | smbcPut
  deriving DecidableEq, Repr

/-- Where a process is. `loop i`, `sleep i` and `behind i` carry the loop counter of `lock_smb_fd`. -/
inductive Pc where
  -- `NE_ERR(argc, 2)` of `smbc_put`
  | args
  | open
  | loop (i : Fin 20)
  | sleep (i : Fin 20)
  -- `if(i==20)`
  | behind (i : Fin 21)
  -- the label `errout` of `lock_smb_fd`
  | errout
  -- `EQ_ERR(lock_fd, -1)` of `main`
  | ret
  -- `main` behind the lock
  | work
  | exited
  deriving DecidableEq, Repr

structure Proc where
  pc : Pc
  fd : Int
  isOpen : Bool
  deriving DecidableEq, Repr

/-- All processes, and the one whose open file description has the lock. -/
structure St (P : Type) where
  proc : P → Proc
  owner : Option P

inductive Act where
  | args (ok : Bool)
  | open (fd : Option Nat)
  | flock (ok : Bool)
  | wake
  | go
  | exit
  | kill
  deriving DecidableEq, Repr

section

variable {P : Type} [DecidableEq P]

def St.set (s : St P) (p : P) (x : Proc) : St P := { s with proc := Function.update s.proc p x }

/-- `close(fd)`: the lock goes with the descriptor. -/
def St.close (s : St P) (p : P) : St P :=
  { (s.set p { s.proc p with isOpen := false }) with
    owner := if s.owner = some p ∧ (s.proc p).isOpen then none else s.owner }

def St.goto (s : St P) (p : P) (pc : Pc) : St P := s.set p { s.proc p with pc := pc }

/-- The end of a process: the kernel closes what it has open. `main` of `smbc_rec` closes `lock_fd`
before, a number that `lock_smb_fd` has closed already. -/
def St.exit (s : St P) (p : P) : St P := (s.close p).goto p .exited

/-- One step of process `p`; `none` where the process is not there or the kernel cannot answer so. -/
def step (s : St P) (l : P × Act) : Option (St P) :=
  let p := l.1
  let x := s.proc p
  match x.pc, l.2 with
  | .args, .args ok => some (if ok then s.goto p .open else s.exit p)
  | .open, .open none => some (s.set p { x with pc := .errout, fd := -1 })
  | .open, .open (some n) => some (s.set p ⟨.loop 0, n, true⟩)
  | .loop i, .flock true =>
      -- `flock` with `LOCK_NB` is granted if no other open file description has the lock
      if s.owner = none ∨ s.owner = some p then some { (s.goto p (.behind i.castSucc)) with owner := some p }
      else none
  | .loop i, .flock false => some (s.goto p (.sleep i))
  | .sleep i, .wake => some (s.goto p (if h : i.val + 1 < 20 then .loop ⟨i.val + 1, h⟩ else .behind i.succ))
  | .behind i, .go =>
      some (if i.val = 20 then (s.close p).set p { x with pc := .errout, fd := -1, isOpen := false }
        else s.goto p .errout)
  | .errout, .go => some (if x.fd ≠ -1 then (s.close p).goto p .ret else s.goto p .ret)
  | .ret, .go => some (if x.fd = -1 then s.exit p else s.goto p .work)
  | .work, .exit => some (s.exit p)
  | .exited, _ => none
  | _, .kill => some (s.exit p)
  | _, _ => none

def init (prog : Program) : St P where
  proc := fun _ => ⟨match prog with | .smbcRec => .open | .smbcPut => .args, -1, false⟩
  owner := none

/-- Process `p` is between a successful return of `lock_smb_fd` and its exit. -/
def Inside (s : St P) (p : P) : Prop := (s.proc p).pc = .work ∨ ((s.proc p).pc = .ret ∧ (s.proc p).fd ≠ -1)

instance (s : St P) (p : P) : Decidable (Inside s p) := inferInstanceAs (Decidable (_ ∨ _))

def Exclusive (s : St P) : Prop := ∀ p q, Inside s p → Inside s q → p = q

end

end CameraFw.Lock
