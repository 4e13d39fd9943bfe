import CameraFw.Base.Loop
import CameraFw.Base.Tlv
import CameraFw.Dhcp.UdpIp

/-!
# The options of a DHCP reply

`parseDhcpMsgRecv` of `client.c` and the table `DhcpOptions` that it fills, with the blocks that the
table points to. A read outside of the message or of a block is `none`. The second half is what the
function is for, a map from codes to data.
-/

namespace CameraFw.Dhcp

open CameraFw.Base

def padOption : UInt8 := 0
def subnetMask : UInt8 := 1
def dns : UInt8 := 6
def broadcastAddr : UInt8 := 28
def dhcpIPaddrLeaseTime : UInt8 := 51
def dhcpMessageType : UInt8 := 53
def dhcpServerIdentifier : UInt8 := 54
def dhcpT1value : UInt8 := 58
def dhcpT2value : UInt8 := 59
def endOption : UInt8 := 255

def htonl (v : Nat) : List UInt8 := (toLE 4 v).reverse

def ntohl (bs : List UInt8) : Nat := le bs.reverse

/-- The mask of the class of the address. -/
def classMask (yiaddr : List UInt8) : List UInt8 :=
  if yiaddr.headD 0 < 128 then [255, 0, 0, 0] else if yiaddr.headD 0 < 192 then [255, 255, 0, 0]
  else [255, 255, 255, 0]

def broadcastOf (yiaddr mask : List UInt8) : List UInt8 := List.zipWith (fun a m => a ||| ~~~m) yiaddr mask

/-! ## The table -/

/-- `dhcpOptions`; `val` has the bytes of the blocks. -/
structure DhcpOptions where
  num : UInt8
  len : UInt8 → UInt8
  val : UInt8 → Option (List UInt8)

namespace DhcpOptions

/-- As `releaseDhcpOptions` leaves it. -/
def released : DhcpOptions := ⟨0, fun _ => 0, fun _ => none⟩

/-- A new block; `more` is whether `num` is incremented. -/
def install (t : DhcpOptions) (c len : UInt8) (block : List UInt8) (more : Bool) : DhcpOptions where
  num := if more then t.num + 1 else t.num
  len := Function.update t.len c len
  val := Function.update t.val c (some block)

/-- Other bytes in the block. -/
def overwrite (t : DhcpOptions) (c : UInt8) (block : List UInt8) : DhcpOptions :=
  { t with val := Function.update t.val c (some block) }

/-- An option with data. -/
def receive (t : DhcpOptions) (c : UInt8) (data : List UInt8) : Option DhcpOptions :=
  if t.len c = UInt8.ofNat data.length then
    match t.val c with
    | none => none
    | some b => if data.length ≤ b.length then some (t.overwrite c (data ++ b.drop data.length)) else none
  else some (t.install c (UInt8.ofNat data.length) (data ++ [0]) (t.val c).isNone)

/-- The first four bytes of a block. -/
def first4 (t : DhcpOptions) (c : UInt8) : Option (List UInt8) := (t.val c).bind fun b => fetch b 0 4

/-- What is done if an option has not been received. -/
def ensure (t : DhcpOptions) (c : UInt8) (block : Option (List UInt8)) : Option DhcpOptions :=
  match t.val c with
  | none => block.map fun b => t.install c 4 b true
  | some _ => some t

/-- What is done if `c₀` has not been received, and then for `c`, which depends on it. -/
def ensureFrom (t : DhcpOptions) (c₀ : UInt8) (block : List UInt8) (c : UInt8) (g : List UInt8 → List UInt8) :
    Option DhcpOptions := do
  let t ← t.ensure c₀ (some block)
  t.ensure c ((t.first4 c₀).map g)

/-- What is done about the lease time and both timers. A block of another length is not freed. -/
def timed (t : DhcpOptions) (c : UInt8) (time : List UInt8) : DhcpOptions :=
  match t.val c with
  | none => t.install c 4 time true
  | some b =>
      if t.len c = 4 then
        if b.take 4 = [0, 0, 0, 0] then t.overwrite c (time ++ b.drop 4) else t
      else t.install c 4 time true

end DhcpOptions

/-! ## Parsing -/

/-- One round of the loop, at `p` in the frame. -/
def optionPass (f : List UInt8) (last : Nat) (st : Nat × DhcpOptions) :
    Pass (Nat × DhcpOptions) (Option DhcpOptions) :=
  if st.1 < last then
    match f[st.1]? with
    | none => .leave none
    | some c =>
        if c = endOption then .leave (some st.2)
        else if c = padOption then .again (st.1 + 1, st.2)
        else
          match f[st.1 + 1]? with
          | none => .leave none
          | some l =>
              if l = 0 then .again (st.1 + 2, st.2)
              else
                match (fetch f (st.1 + 2) l.toNat).bind (st.2.receive c) with
                | none => .leave none
                | some t => .again (st.1 + l.toNat + 2, t)
  else .leave (some st.2)

/-- The loop over the 308 bytes after the magic cookie of the message at `d`. -/
def parseOptions (f : List UInt8) (d : Nat) (t : DhcpOptions) : Option DhcpOptions :=
  (whileLoop (fun (_ : Unit) => optionPass f (d + 548)) (fun _ => ()) 309 0 (d + 240, t)).join

/-- What `parseDhcpMsgRecv` returns and leaves behind. -/
structure Parsed where
  frame : List UInt8
  options : DhcpOptions
  type : UInt8

/-- The table is completed for the address offered and for the sender. -/
def completed (src yiaddr nleaseTime : List UInt8) (t : DhcpOptions) : Option DhcpOptions := do
  let t ← t.ensureFrom dhcpServerIdentifier src dns id
  let t ← t.ensureFrom subnetMask (classMask yiaddr) broadcastAddr (broadcastOf yiaddr)
  let t := t.timed dhcpIPaddrLeaseTime nleaseTime
  let lease ← t.first4 dhcpIPaddrLeaseTime
  -- the products with 0.5 and 0.875 are exact
  let t := t.timed dhcpT1value (htonl (ntohl lease / 2))
  return t.timed dhcpT2value (htonl (ntohl lease * 7 / 8))

/-- The type of the message, if one is in the table. -/
def messageType (t : DhcpOptions) : Option UInt8 :=
  match t.val dhcpMessageType with
  | none => some 0
  | some b => b.head?

/-- `sizeof(udpipMessage)`. -/
def FRAME_SIZE : Nat := 1514

/-- Where `DhcpMsgRecv` points to, after an IP header of `hl` bytes. -/
def msgRecv (hl : Nat) : Nat := ETH_HLEN + hl + 8

/-- `yiaddr` of the message. -/
def yiaddr (f : List UInt8) (hl : Nat) : List UInt8 := load f (msgRecv hl + 16) 4

/-- A reply: its frame, the length of its IP header, and `ciaddr` of the message that was sent last. -/
structure Reply where
  frame : List UInt8
  hl : Nat
  ciaddr : List UInt8

/-- The frame after `yiaddr` has been set. -/
def Reply.patched (r : Reply) : List UInt8 :=
  if yiaddr r.frame r.hl = [0, 0, 0, 0] then store r.frame (msgRecv r.hl + 16) r.ciaddr else r.frame

def parseDhcpMsgRecv (nleaseTime : List UInt8) (r : Reply) (t : DhcpOptions) : Option Parsed := do
  let t ← parseOptions r.frame (msgRecv r.hl) t
  let t ← completed (load r.patched (ETH_HLEN + 12) 4) (yiaddr r.patched r.hl) nleaseTime t
  let type ← messageType t
  return ⟨r.patched, t, type⟩

/-! ## What it is for -/

/-- What is known of the options. -/
abbrev OptionMap := UInt8 → Option (List UInt8)

namespace OptionMap

def assign (m : OptionMap) (o : Tlv.Opt) : OptionMap :=
  if o.data = [] then m else Function.update m o.code (some o.data)

/-- Four bytes of an option, which may have been sent without the last one. -/
def word (m : OptionMap) (c : UInt8) : List UInt8 := ((m c).getD [] ++ [0]).take 4

def missing (m : OptionMap) (c : UInt8) (v : List UInt8) : OptionMap :=
  if m c = none then Function.update m c (some v) else m

def missingFrom (m : OptionMap) (c₀ : UInt8) (v : List UInt8) (c : UInt8)
    (g : List UInt8 → List UInt8) : OptionMap :=
  let m := m.missing c₀ v
  m.missing c (g (m.word c₀))

/-- A time that is there and not 0. -/
def HasTime (m : OptionMap) (c : UInt8) : Prop := ∃ d, m c = some d ∧ d.length = 4 ∧ d ≠ [0, 0, 0, 0]

instance decidableHas (m : OptionMap) (c : UInt8) (P : List UInt8 → Prop) [DecidablePred P] :
    Decidable (∃ d, m c = some d ∧ P d) :=
  match m c with
  | none => isFalse nofun
  | some d => decidable_of_iff (P d) ⟨fun hd => ⟨d, rfl, hd⟩, fun ⟨_, he, hd⟩ => Option.some.inj he ▸ hd⟩

instance (m : OptionMap) (c : UInt8) : Decidable (m.HasTime c) :=
  inferInstanceAs (Decidable (∃ d, m c = some d ∧ d.length = 4 ∧ d ≠ [0, 0, 0, 0]))

def time (m : OptionMap) (c : UInt8) (v : List UInt8) : OptionMap :=
  if m.HasTime c then m else Function.update m c (some v)

/-- The number of seconds of a time. -/
def seconds (m : OptionMap) (c : UInt8) : Nat := ntohl (m.word c)

/-- The map with what the reply has left out. -/
def complete (src yiaddr nleaseTime : List UInt8) (m : OptionMap) : OptionMap :=
  let m := m.missingFrom dhcpServerIdentifier src dns id
  let m := m.missingFrom subnetMask (classMask yiaddr) broadcastAddr (broadcastOf yiaddr)
  let m := m.time dhcpIPaddrLeaseTime nleaseTime
  let lease := m.seconds dhcpIPaddrLeaseTime
  let m := m.time dhcpT1value (htonl (lease / 2))
  m.time dhcpT2value (htonl (lease * 7 / 8))

/-- The option is too short to have four bytes read from its block. -/
def Short (m : OptionMap) (c : UInt8) : Prop := ∃ d, m c = some d ∧ d.length < 3

/-- An option is needed for another one and too short. -/
def FaultyFrom (m : OptionMap) (c₀ c : UInt8) : Prop := m c = none ∧ m.Short c₀

def Faulty (m : OptionMap) : Prop :=
  m.FaultyFrom dhcpServerIdentifier dns ∨ m.FaultyFrom subnetMask broadcastAddr

instance (m : OptionMap) (c₀ c : UInt8) : Decidable (m.FaultyFrom c₀ c) :=
  inferInstanceAs (Decidable (m c = none ∧ ∃ d, m c₀ = some d ∧ d.length < 3))

instance (m : OptionMap) : Decidable m.Faulty :=
  inferInstanceAs (Decidable (m.FaultyFrom dhcpServerIdentifier dns ∨ m.FaultyFrom subnetMask broadcastAddr))

end OptionMap

/-- What the table says. -/
def DhcpOptions.view (t : DhcpOptions) : OptionMap := fun c => (t.val c).map (List.take (t.len c).toNat)

namespace Reply

/-- The options, as they are encoded. -/
def options (r : Reply) : List Tlv.Opt :=
  Tlv.decode padOption endOption 308 (r.frame.drop (msgRecv r.hl + 240))

/-- The address of the sender. -/
def src (r : Reply) : List UInt8 := load r.frame (ETH_HLEN + 12) 4

/-- The address that is offered, or the one that was asked for. -/
def address (r : Reply) : List UInt8 :=
  if yiaddr r.frame r.hl = [0, 0, 0, 0] then r.ciaddr else yiaddr r.frame r.hl

/-- What the options say after the reply. -/
def received (r : Reply) (m : OptionMap) : OptionMap := r.options.foldl OptionMap.assign m

/-- What is known after the reply. -/
def learned (nleaseTime : List UInt8) (r : Reply) (m : OptionMap) : OptionMap :=
  (r.received m).complete r.src r.address nleaseTime

end Reply

/-! ## Replies one after another -/

/-- The table after all the replies since it was released. -/
def parseAll (nleaseTime : List UInt8) (rs : List Reply) (t : DhcpOptions) : Option DhcpOptions :=
  rs.foldlM (fun t r => (parseDhcpMsgRecv nleaseTime r t).map Parsed.options) t

def learnAll (nleaseTime : List UInt8) (rs : List Reply) (m : OptionMap) : Option OptionMap :=
  rs.foldlM (fun m r => if (r.received m).Faulty then none else some (r.learned nleaseTime m)) m

end CameraFw.Dhcp
