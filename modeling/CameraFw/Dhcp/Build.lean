import CameraFw.Dhcp.Options

/-!
# The messages of the DHCP client

The functions of `buildmsg.c` and `clientIDsetup` of `client.c`. `buildDhcpDecline` is not compiled into
the client.
-/

namespace CameraFw.Dhcp

open CameraFw.Base

def IPPACKET_SIZE : Nat := 1500
def CLASS_ID_MAX_LEN : Nat := 48
def CLIENT_ID_MAX_LEN : Nat := 48
def HOSTNAME_MAX_LEN : Nat := 64
def DHCP_CLIENT_PORT : Nat := 68
def DHCP_SERVER_PORT : Nat := 67
def INADDR_BROADCAST : BitVec 32 := 0xffffffff
def MAC_BCAST_ADDR : List UInt8 := [0xff, 0xff, 0xff, 0xff, 0xff, 0xff]

def hostName : UInt8 := 12
def dhcpRequestedIPaddr : UInt8 := 50
def dhcpParamRequest : UInt8 := 55
def dhcpMaxMsgSize : UInt8 := 57
def dhcpClassIdentifier : UInt8 := 60
def dhcpClientIdentifier : UInt8 := 61

def DHCP_DISCOVER : UInt8 := 1
def DHCP_OFFER : UInt8 := 2
def DHCP_REQUEST : UInt8 := 3
def DHCP_ACK : UInt8 := 5
def DHCP_NAK : UInt8 := 6
def DHCP_RELEASE : UInt8 := 7
def DHCP_INFORM : UInt8 := 8

/-- The options that are asked for. -/
def requested : List UInt8 := [1, 3, 6, 12, 15, 17, 23, 28, 29, 31, 33, 40, 41, 42]

/-- The variables of the client that messages are built from. Class and client identifier are as long as
they are said to be; the host name comes with its final zero byte. -/
structure Config where
  hwAddr : List UInt8
  host : Option (List UInt8)
  classId : List UInt8
  clientId : List UInt8
  ciaddr : BitVec 32
  siaddr : BitVec 32
  shaddr : List UInt8
  informIpaddr : BitVec 32
  broadcastResp : Bool
  beRFC1541 : Bool
  nleaseTime : List UInt8
  ipId : BitVec 16
  deriving DecidableEq, Repr

/-- `clientIDsetup`, without an identifier and with one. -/
def clientIDsetup (hwAddr : List UInt8) : Option (List UInt8) → List UInt8
  | none => dhcpClientIdentifier :: 7 :: 1 :: hwAddr
  | some id => dhcpClientIdentifier :: UInt8.ofNat (id.length + 1) :: 0 :: id

/-! ## Parts of a message -/

def magicCookie : List UInt8 := htonl 0x63825363

/-- What the builders assign to the message in front of the options. The fields of the server are 0. -/
def bootp (c : Config) (xid : BitVec 32) (secs flags : Nat) (ciaddr : BitVec 32) : List UInt8 :=
  [1, 1, 6, 0] ++ toLE 4 xid.toNat ++ htons secs ++ htons flags ++ toLE 4 ciaddr.toNat ++
    List.replicate 12 0 ++ c.hwAddr ++ List.replicate 202 0

def Config.flags (c : Config) : Nat := if c.broadcastResp then 0x8000 else 0

/-- The bytes of the options as they are written one after the other. -/
def typeBytes (type : UInt8) : List UInt8 := [dhcpMessageType, 1, type]

def sizeBytes : List UInt8 := [dhcpMaxMsgSize, 2] ++ htons 548

def addressBytes (c : UInt8) (addr : List UInt8) : List UInt8 := [c, 4] ++ addr

def paramBytes : List UInt8 := [dhcpParamRequest, 14] ++ requested

def Config.hostBytes (c : Config) : List UInt8 :=
  match c.host with
  | none => []
  | some name => [hostName, UInt8.ofNat name.length] ++ name

def Config.classBytes (c : Config) : List UInt8 :=
  [dhcpClassIdentifier, UInt8.ofNat c.classId.length] ++ c.classId

/-- What most messages end with. -/
def Config.tailBytes (c : Config) : List UInt8 :=
  paramBytes ++ c.hostBytes ++ c.classBytes ++ c.clientId ++ [endOption]

/-- The frame that is sent, in a buffer that was cleared. -/
def assemble (c : Config) (dhost fixed options : List UInt8) (saddr daddr : BitVec 32) : List UInt8 :=
  dhost ++ c.hwAddr ++ htons 0x0800 ++
    udpipgen (store (List.replicate IPPACKET_SIZE 0) 28 (fixed ++ magicCookie ++ options))
      { saddr := saddr, daddr := daddr, sport := BitVec.ofNat 16 (le (htons DHCP_CLIENT_PORT))
        dport := BitVec.ofNat 16 (le (htons DHCP_SERVER_PORT)), msglen := 548, ipId := c.ipId }

/-! ## The builders -/

def ciaddrBytes (c : Config) : List UInt8 := toLE 4 c.ciaddr.toNat

/-- The address that is asked for is an option or, for old servers, a field of the message. -/
def Config.requestedBytes (c : Config) : List UInt8 :=
  if c.beRFC1541 then [] else addressBytes dhcpRequestedIPaddr (ciaddrBytes c)

def Config.requestedField (c : Config) : BitVec 32 := if c.beRFC1541 then c.ciaddr else 0

def buildDhcpDiscover (c : Config) (xid : BitVec 32) : List UInt8 :=
  assemble c MAC_BCAST_ADDR (bootp c xid 10 c.flags (if c.ciaddr = 0 then 0 else c.requestedField))
    (typeBytes DHCP_DISCOVER ++ sizeBytes ++ (if c.ciaddr = 0 then [] else c.requestedBytes) ++
      addressBytes dhcpIPaddrLeaseTime c.nleaseTime ++ c.tailBytes) 0 INADDR_BROADCAST

/-- The lease time of the table, if there is one. -/
def leaseBytes (t : DhcpOptions) : Option (List UInt8) :=
  match t.val dhcpIPaddrLeaseTime with
  | none => some []
  | some _ => (t.first4 dhcpIPaddrLeaseTime).map (addressBytes dhcpIPaddrLeaseTime)

def buildDhcpRequest (c : Config) (t : DhcpOptions) (xid : BitVec 32) : Option (List UInt8) := do
  let sid ← t.first4 dhcpServerIdentifier
  let lease ← leaseBytes t
  return assemble c MAC_BCAST_ADDR (bootp c xid 10 c.flags c.requestedField)
    (typeBytes DHCP_REQUEST ++ sizeBytes ++ addressBytes dhcpServerIdentifier sid ++ c.requestedBytes ++
      lease ++ c.tailBytes)
    0 INADDR_BROADCAST

def buildDhcpRenew (c : Config) (t : DhcpOptions) (xid : BitVec 32) : Option (List UInt8) := do
  let lease ← leaseBytes t
  return assemble c c.shaddr (bootp c xid 10 c.flags c.ciaddr)
    (typeBytes DHCP_REQUEST ++ sizeBytes ++ lease ++ c.tailBytes) c.ciaddr c.siaddr

def buildDhcpRebind (c : Config) (t : DhcpOptions) (xid : BitVec 32) : Option (List UInt8) := do
  let lease ← leaseBytes t
  return assemble c MAC_BCAST_ADDR (bootp c xid 10 c.flags c.ciaddr)
    (typeBytes DHCP_REQUEST ++ sizeBytes ++ lease ++ c.tailBytes) c.ciaddr INADDR_BROADCAST

def buildDhcpReboot (c : Config) (xid : BitVec 32) : List UInt8 :=
  assemble c MAC_BCAST_ADDR (bootp c xid 10 c.flags c.requestedField)
    (typeBytes DHCP_REQUEST ++ sizeBytes ++ c.requestedBytes ++
      addressBytes dhcpIPaddrLeaseTime c.nleaseTime ++ c.tailBytes)
    0 INADDR_BROADCAST

/-- `pointer` is where the block of the server identifier is: the source has an `&` in front of
`DhcpOptions.val`. -/
def buildDhcpRelease (c : Config) (pointer : BitVec 32) (xid : BitVec 32) : List UInt8 :=
  assemble c c.shaddr (bootp c xid 0 0 c.ciaddr)
    (typeBytes DHCP_RELEASE ++ addressBytes dhcpServerIdentifier (toLE 4 pointer.toNat) ++ c.clientId ++
      [endOption])
    c.ciaddr c.siaddr

def buildDhcpInform (c : Config) (xid : BitVec 32) : List UInt8 :=
  assemble c MAC_BCAST_ADDR (bootp c xid 10 c.flags c.informIpaddr)
    (typeBytes DHCP_INFORM ++ sizeBytes ++ c.tailBytes) 0 INADDR_BROADCAST

end CameraFw.Dhcp
