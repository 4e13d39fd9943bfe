import Mathlib

/-!
# Baud rates

`UART_SetBaudRate` of `uart_utils.c`: a table for the clock of the device, of which the entry is taken
that is nearest to the rate. `UINT` has 32 bits, which no sum here leaves.
-/

namespace CameraFw.Uart

structure BaudRateClock where
  rate : Nat
  BSEL : Nat
  BDIV : Nat
  BCMP : Nat
  deriving DecidableEq, Repr

/-! ## The tables -/

def AvailBaudRate16 : List BaudRateClock :=
  [⟨921600, 0, 0, 5574⟩, ⟨460800, 0, 1, 11150⟩, ⟨230400, 0, 3, 22300⟩, ⟨115200, 1, 3, 22300⟩,
   ⟨57600, 2, 3, 22300⟩, ⟨38400, 2, 5, 33450⟩, ⟨19200, 3, 5, 33450⟩, ⟨9600, 4, 5, 33450⟩,
   ⟨4800, 5, 5, 33450⟩, ⟨2400, 5, 12, 1364⟩, ⟨1200, 7, 5, 33450⟩, ⟨600, 8, 5, 33450⟩,
   ⟨300, 9, 5, 33450⟩]

def AvailBaudRate165 : List BaudRateClock :=
  [⟨921600, 0, 0, 7796⟩, ⟨460800, 0, 1, 15594⟩, ⟨230400, 0, 3, 31188⟩, ⟨115200, 1, 3, 31188⟩,
   ⟨57600, 2, 3, 31188⟩, ⟨38400, 2, 5, 46784⟩, ⟨19200, 3, 5, 46784⟩, ⟨9600, 4, 5, 46784⟩,
   ⟨4800, 5, 5, 46784⟩, ⟨2400, 5, 12, 28032⟩, ⟨1200, 7, 5, 46784⟩, ⟨600, 8, 5, 46784⟩,
   ⟨300, 9, 5, 46784⟩]

def AvailBaudRate30 : List BaudRateClock :=
  [⟨921600, 0, 1, 2260⟩, ⟨460800, 0, 3, 4522⟩, ⟨230400, 1, 3, 4522⟩, ⟨115200, 2, 3, 4522⟩,
   ⟨57600, 3, 3, 4522⟩, ⟨38400, 3, 5, 6784⟩, ⟨19200, 4, 5, 6784⟩, ⟨9600, 5, 5, 6784⟩,
   ⟨4800, 5, 11, 13568⟩, ⟨2400, 7, 5, 6784⟩, ⟨1200, 8, 5, 6784⟩, ⟨600, 9, 5, 6784⟩, ⟨300, 10, 5, 6784⟩]

def AvailBaudRate32 : List BaudRateClock :=
  [⟨921600, 0, 1, 11150⟩, ⟨460800, 0, 3, 22300⟩, ⟨230400, 1, 3, 22300⟩, ⟨115200, 2, 3, 22300⟩,
   ⟨57600, 3, 3, 22300⟩, ⟨38400, 3, 5, 33450⟩, ⟨19200, 4, 5, 33450⟩, ⟨9600, 5, 5, 33450⟩,
   ⟨4800, 5, 12, 1364⟩, ⟨2400, 7, 5, 33450⟩, ⟨1200, 8, 5, 33450⟩, ⟨600, 9, 5, 33450⟩,
   ⟨300, 10, 5, 33450⟩]

def AvailBaudRate33 : List BaudRateClock :=
  [⟨921600, 0, 1, 15594⟩, ⟨460800, 0, 3, 31188⟩, ⟨230400, 1, 3, 31188⟩, ⟨115200, 2, 3, 31188⟩,
   ⟨57600, 3, 3, 31188⟩, ⟨38400, 3, 5, 46784⟩, ⟨19200, 4, 5, 46784⟩, ⟨9600, 5, 5, 46784⟩,
   ⟨4800, 5, 12, 28032⟩, ⟨2400, 7, 5, 46784⟩, ⟨1200, 8, 5, 46784⟩, ⟨600, 9, 5, 46784⟩,
   ⟨300, 10, 5, 46784⟩]

def AvailBaudRate34 : List BaudRateClock :=
  [⟨921600, 0, 1, 22998⟩, ⟨460800, 0, 3, 45998⟩, ⟨230400, 1, 3, 45998⟩, ⟨115200, 2, 3, 45998⟩,
   ⟨57600, 3, 3, 45998⟩, ⟨38400, 3, 6, 3460⟩, ⟨19200, 4, 6, 3460⟩, ⟨9600, 5, 6, 3460⟩,
   ⟨4800, 5, 13, 6922⟩, ⟨2400, 7, 6, 3460⟩, ⟨1200, 8, 6, 3460⟩, ⟨600, 9, 6, 3460⟩, ⟨300, 10, 6, 3460⟩]

def AvailBaudRate48 : List BaudRateClock :=
  [⟨921600, 0, 2, 16724⟩, ⟨460800, 0, 5, 33450⟩, ⟨230400, 1, 5, 33450⟩, ⟨115200, 2, 5, 33450⟩,
   ⟨57600, 3, 5, 33450⟩, ⟨38400, 4, 3, 57856⟩, ⟨19200, 5, 3, 57856⟩, ⟨9600, 5, 8, 50176⟩,
   ⟨4800, 7, 3, 57856⟩, ⟨2400, 8, 3, 57856⟩, ⟨1200, 9, 3, 57856⟩, ⟨600, 10, 3, 57856⟩,
   ⟨300, 11, 3, 57856⟩]

def AvailBaudRate56 : List BaudRateClock :=
  [⟨921600, 0, 2, 52280⟩, ⟨460800, 0, 6, 39024⟩, ⟨230400, 1, 6, 39024⟩, ⟨115200, 2, 6, 39024⟩,
   ⟨57600, 3, 6, 39024⟩, ⟨38400, 4, 4, 45652⟩, ⟨19200, 5, 5, 45652⟩, ⟨9600, 5, 10, 25770⟩,
   ⟨4800, 7, 4, 45652⟩, ⟨2400, 8, 4, 45652⟩, ⟨1200, 9, 4, 45652⟩, ⟨600, 10, 4, 45652⟩,
   ⟨300, 11, 4, 45652⟩]

def AvailBaudRate66 : List BaudRateClock :=
  [⟨921600, 0, 3, 31188⟩, ⟨460800, 1, 3, 31188⟩, ⟨230400, 2, 3, 31188⟩, ⟨115200, 3, 3, 31188⟩,
   ⟨57600, 4, 3, 31188⟩, ⟨38400, 4, 5, 46784⟩, ⟨19200, 5, 5, 46784⟩, ⟨9600, 5, 12, 28032⟩,
   ⟨4800, 7, 5, 46784⟩, ⟨2400, 8, 5, 46784⟩, ⟨1200, 9, 5, 46784⟩, ⟨600, 10, 5, 46784⟩,
   ⟨300, 11, 5, 46784⟩]

def AvailBaudRate24 : List BaudRateClock :=
  [⟨921600, 0, 0, 41130⟩, ⟨460800, 0, 2, 16724⟩, ⟨230400, 0, 5, 33450⟩, ⟨115200, 1, 5, 33450⟩,
   ⟨57600, 2, 5, 33450⟩, ⟨38400, 3, 3, 57856⟩, ⟨19200, 4, 3, 57856⟩, ⟨9600, 5, 3, 57856⟩,
   ⟨4800, 5, 8, 50176⟩, ⟨2400, 7, 3, 57856⟩, ⟨1200, 8, 3, 57856⟩, ⟨600, 9, 3, 57856⟩,
   ⟨300, 10, 3, 57856⟩]

/-- The switch over the clock, in kHz. -/
def AvailBaudRate (clk : Nat) : List BaudRateClock :=
  match clk with
  | 16500 => AvailBaudRate165
  | 24000 => AvailBaudRate24
  | 30000 => AvailBaudRate30
  | 32000 => AvailBaudRate32
  | 33000 => AvailBaudRate33
  | 34666 => AvailBaudRate34
  | 48000 => AvailBaudRate48
  | 60000 => AvailBaudRate48
  | 56000 => AvailBaudRate56
  | 66000 => AvailBaudRate66
  | 16000 => AvailBaudRate16
  | _ => AvailBaudRate16

/-- The clocks that the switch names. -/
def namedClocks : List Nat := [16500, 24000, 30000, 32000, 33000, 34666, 48000, 60000, 56000, 66000, 16000]

/-! ## The search -/

/-- The second loop, which is at entry `idx` of the table. -/
def closest (rate : Nat) : Nat → List Nat → Option Nat
  | idx, r :: r' :: rates =>
      if rate > (r + r') / 2 then some idx
      else if rate < (r + r') / 2 ∧ rate > r' then some (idx + 1)
      else closest rate (idx + 1) (r' :: rates)
  | _, _ => none

/-- `finalIdx`; `none` if `bFound` stays false. -/
def finalIdx (rate : Nat) (rates : List Nat) : Option Nat :=
  match rates.findIdx? (· = rate) with
  | some idx => some idx
  | none => closest rate 0 rates

/-! ## The register -/

def BRCR_E : BitVec 32 := 0x80000000
def BRCR_BSEL : BitVec 32 := 0x0F000000
def BRCR_BDIV : BitVec 32 := 0x001F0000
def BRCR_BCMP : BitVec 32 := 0x0000FFFF

def BaudRateClock.regVal (e : BaudRateClock) : BitVec 32 :=
  0 ||| BRCR_E ||| ((BitVec.ofNat 32 e.BSEL <<< 24) &&& BRCR_BSEL) |||
    ((BitVec.ofNat 32 e.BDIV <<< 16) &&& BRCR_BDIV) ||| (BitVec.ofNat 32 e.BCMP &&& BRCR_BCMP)

/-- `UART_SetBaudRate`: what it writes to the baud rate register, if it does; `devHz` is what
`pl_get_dev_hz` says. -/
def setBaudRate (devHz rate clk : Nat) : Option (BitVec 32) :=
  let clk := if clk = 0 then devHz / 2 / 1000 else clk
  let table := AvailBaudRate clk
  match finalIdx rate (table.map (·.rate)) with
  | some idx => (table[idx]?).map (·.regVal)
  | none => none

/-! ## What the hardware makes of it -/

def bsel (reg : BitVec 32) : Nat := ((reg &&& BRCR_BSEL) >>> 24).toNat
def bdiv (reg : BitVec 32) : Nat := ((reg &&& BRCR_BDIV) >>> 16).toNat
def bcmp (reg : BitVec 32) : Nat := (reg &&& BRCR_BCMP).toNat

/-- The rate with a clock of `clk` kHz. -/
def realRate (clk : Nat) (reg : BitVec 32) : ℚ :=
  clk * 1000 / (16 * 2 ^ bsel reg * (bdiv reg + 1 + bcmp reg / 65536))

/-- Within two percent of the nominal rate. -/
def Accurate (clk : Nat) (reg : BitVec 32) (nominal : Nat) : Prop :=
  |realRate clk reg - nominal| ≤ 2 / 100 * nominal

/-- No other rate of the table is closer. -/
def Nearest (rate r : Nat) (rates : List Nat) : Prop :=
  ∀ r' ∈ rates, ((r : Int) - rate).natAbs ≤ ((r' : Int) - rate).natAbs

/-- The nearest entry is programmed, and the real rate is the nominal one, within two percent. -/
def WellSet (devHz rate clk : Nat) : Prop :=
  ∃ e ∈ AvailBaudRate clk, Nearest rate e.rate ((AvailBaudRate clk).map (·.rate)) ∧
    setBaudRate devHz rate clk = some e.regVal ∧ Accurate clk e.regVal e.rate

end CameraFw.Uart
