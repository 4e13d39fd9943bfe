import Mathlib

/-!
# The general purpose pins

`gio.c` of the PL1029. Sixteen pins share each register: one bit for each pin, two bits in the register
of the interrupt edges. The registers are taken to keep what is written to them.
-/

namespace CameraFw.Gio

/-- The registers from `rGPIO_BASE` on; bit `i` of the byte at offset `a` is number `8 * a + i`. -/
abbrev Regs := Nat → Bool

/-- The `w` bits from number `k` on. -/
def readBits (w : Nat) (r : Regs) (k : Nat) : BitVec w := BitVec.ofFnLE fun i : Fin w => r (k + i)

def writeBits {w : Nat} (r : Regs) (k : Nat) (v : BitVec w) : Regs := fun j =>
  if k ≤ j ∧ j < k + w then v.getLsbD (j - k) else r j

def readb (r : Regs) (a : Nat) : BitVec 8 := readBits 8 r (8 * a)
def readw (r : Regs) (a : Nat) : BitVec 16 := readBits 16 r (8 * a)
def readl (r : Regs) (a : Nat) : BitVec 32 := readBits 32 r (8 * a)
def writeb (r : Regs) (a : Nat) (v : BitVec 8) : Regs := writeBits r (8 * a) v
def writew (r : Regs) (a : Nat) (v : BitVec 16) : Regs := writeBits r (8 * a) v
def writel (r : Regs) (a : Nat) (v : BitVec 32) : Regs := writeBits r (8 * a) v

def GPIO_ENB : Nat := 0x54
def GPIO_DO : Nat := 0x56
def GPIO_OE : Nat := 0x58
def GPIO_DI : Nat := 0x5c
def GPIO_KEY_ENB : Nat := 0x78
def GPIO_KEY_POL : Nat := 0x7a
def GPIO_KEY_LEVEL : Nat := 0x7d
def GPIO_RSTN_63 : Nat := 0x7f
def GPIO_KEY_MASK : Nat := 0x80
def GPIO_KEY_STATUS : Nat := 0x82
def GPIO_KEY_EDGE : Nat := 0x84

/-! ## One bit for each pin -/

/-- `__read_gpio`. -/
def readGpio (r : Regs) (gpio base : Nat) : BitVec 8 := ((readw r base >>> gpio) &&& 0x01).setWidth 8

/-- `__write_gpio`. -/
def writeGpio (r : Regs) (gpio base : Nat) (val : BitVec 8) : Regs :=
  if val ≠ 0 then writew r base (readw r base ||| (0x01#16 <<< gpio))
  else writew r base (readw r base &&& ~~~(0x01#16 <<< gpio))

/-- The getters, which differ in the register only. The result `-1` is a byte. -/
def getPin (base : Nat) (r : Regs) (gpio : Nat) : BitVec 8 := if gpio > 15 then -1 else readGpio r gpio base

def setPin (base : Nat) (r : Regs) (gpio : Nat) (bit : BitVec 8) : Regs :=
  if gpio > 15 then r else writeGpio r gpio base bit

def getOe : Regs → Nat → BitVec 8 := getPin GPIO_OE
def setOe : Regs → Nat → BitVec 8 → Regs := setPin GPIO_OE
def getInv : Regs → Nat → BitVec 8 := getPin GPIO_KEY_POL
def setInv : Regs → Nat → BitVec 8 → Regs := setPin GPIO_KEY_POL
def getInput : Regs → Nat → BitVec 8 := getPin GPIO_DI
def getOutput : Regs → Nat → BitVec 8 := getPin GPIO_DO
def setOutput : Regs → Nat → BitVec 8 → Regs := setPin GPIO_DO
def getIrqMask : Regs → Nat → BitVec 8 := getPin GPIO_KEY_MASK
def setIrqMask : Regs → Nat → BitVec 8 → Regs := setPin GPIO_KEY_MASK
def getIrqLevel : Regs → Nat → BitVec 8 := getPin GPIO_KEY_LEVEL
def getIrqStatus : Regs → Nat → BitVec 8 := getPin GPIO_KEY_STATUS
def setIrqStatus : Regs → Nat → BitVec 8 → Regs := setPin GPIO_KEY_STATUS

/-- `gio_set_irq_level`. The register is at an odd offset, and is written through the half words around it. -/
def setIrqLevel (r : Regs) (gpio : Nat) (bit : BitVec 8) : Regs :=
  if gpio > 15 then r
  else if gpio < 8 then writeGpio r (gpio + 8) (GPIO_KEY_LEVEL - 0x01) bit
  else writeGpio r (gpio - 8) (GPIO_KEY_LEVEL + 0x01) bit

/-! ## Directions -/

inductive Dir where
  | GIO_DIR_OUT | GIO_DIR_IN | GIO_DIR_UNKNOWN
  deriving DecidableEq, Repr

def setDir (r : Regs) (gpio : Nat) (dir : Dir) : Regs :=
  if gpio > 15 then r
  else
    match dir with
    | .GIO_DIR_IN => writeGpio (writeGpio r gpio GPIO_ENB 0) gpio GPIO_KEY_ENB 1
    | .GIO_DIR_OUT => writeGpio (writeGpio r gpio GPIO_KEY_ENB 0) gpio GPIO_ENB 1
    | .GIO_DIR_UNKNOWN => r

/-- `gio_get_dir`; `none` is its `-1`. -/
def getDir (r : Regs) (gpio : Nat) : Option Dir :=
  if gpio > 15 then none
  else
    let out := readGpio r gpio GPIO_ENB
    let inp := readGpio r gpio GPIO_KEY_ENB
    if inp ≠ 0 ∧ out = 0 then some .GIO_DIR_IN
    else if inp = 0 ∧ out ≠ 0 then some .GIO_DIR_OUT
    else some .GIO_DIR_UNKNOWN

def unrequestGio (r : Regs) (gpio : Nat) : Regs :=
  if gpio > 15 then r
  else writeGpio (writeGpio (writeGpio r gpio GPIO_ENB 0) gpio GPIO_OE 0) gpio GPIO_KEY_ENB 0

/-- `gio_set_in_func` turns functions on and none off. -/
def setInFunc (r : Regs) (flags : BitVec 8) : Regs := writeb r GPIO_RSTN_63 (readb r GPIO_RSTN_63 ||| flags)

/-! ## Interrupt edges -/

inductive Edge where
  | GIO_ANY_EDGE | GIO_RISING_EDGE | GIO_FALLING_EDGE
  deriving DecidableEq, Repr

def getIrqEdge (r : Regs) (gpio : Nat) : BitVec 8 :=
  if gpio > 15 then -1 else ((readl r GPIO_KEY_EDGE >>> (gpio * 2)) &&& 0x0011).setWidth 8

def setIrqEdge (r : Regs) (gpio : Nat) (edge : Edge) : Regs :=
  if gpio > 15 then r
  else
    let val := readl r GPIO_KEY_EDGE
    writel r GPIO_KEY_EDGE <|
      match edge with
      | .GIO_FALLING_EDGE => val &&& ~~~(1#32 <<< (gpio * 2)) ||| (1#32 <<< (gpio * 2 + 1))
      | .GIO_RISING_EDGE => (val ||| (1#32 <<< (gpio * 2))) &&& ~~~(1#32 <<< (gpio * 2 + 1))
      | .GIO_ANY_EDGE => val &&& ~~~(1#32 <<< (gpio * 2)) &&& ~~~(1#32 <<< (gpio * 2 + 1))

/-- The value of an edge, as `gio_edge_t` has it and as the two bits of a pin have it. -/
def Edge.code : Edge → BitVec 2
  | .GIO_ANY_EDGE => 0
  | .GIO_RISING_EDGE => 1
  | .GIO_FALLING_EDGE => 2

/-- Where the two bits of a pin are. -/
def edgeBit (gpio : Nat) : Nat := 8 * GPIO_KEY_EDGE + 2 * gpio

def edgeField (r : Regs) (gpio : Nat) : BitVec 2 := readBits 2 r (edgeBit gpio)

end CameraFw.Gio
