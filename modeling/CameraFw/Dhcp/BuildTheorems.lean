import CameraFw.Dhcp.Build
import CameraFw.Dhcp.Lemmas.Options
import CameraFw.Dhcp.UdpIpTheorems

/-!
# What the messages of the DHCP client say

Every message that is built passes the client's own check of the headers, and the client's own parser
reads the options from it that it was built from. In a release the server identifier is where the
identifier is stored.
-/

namespace CameraFw.Dhcp

open CameraFw.Base

/-- The messages. -/
inductive Kind where
  | discover | request | renew | rebind | reboot | release | inform
  deriving DecidableEq, Repr

def build (k : Kind) (c : Config) (t : DhcpOptions) (pointer xid : BitVec 32) : Option (List UInt8) :=
  match k with
  | .discover => some (buildDhcpDiscover c xid)
  | .request => buildDhcpRequest c t xid
  | .renew => buildDhcpRenew c t xid
  | .rebind => buildDhcpRebind c t xid
  | .reboot => some (buildDhcpReboot c xid)
  | .release => some (buildDhcpRelease c pointer xid)
  | .inform => some (buildDhcpInform c xid)

/-! ## Options -/

/-- The identifiers and the host name have the lengths that the client checks or sets; `id` is the
identifier of the client. -/
structure Config.Ok (c : Config) (id : List UInt8) : Prop where
  hwAddr : c.hwAddr.length = 6
  shaddr : c.shaddr.length = 6
  nleaseTime : c.nleaseTime.length = 4
  host : ∀ name ∈ c.host, name.length ≤ HOSTNAME_MAX_LEN
  classId : c.classId.length ≤ CLASS_ID_MAX_LEN
  clientId : c.clientId = dhcpClientIdentifier :: UInt8.ofNat id.length :: id
  id : id.length + 2 ≤ CLIENT_ID_MAX_LEN

/-- The address that is asked for. -/
def Config.requestedOpts (c : Config) : List Tlv.Opt :=
  if c.beRFC1541 then [] else [⟨dhcpRequestedIPaddr, ciaddrBytes c⟩]

def Config.hostOpts (c : Config) : List Tlv.Opt := c.host.toList.map (Tlv.Opt.mk hostName)

def Config.tailOpts (c : Config) (id : List UInt8) : List Tlv.Opt :=
  ⟨dhcpParamRequest, requested⟩ ::
    (c.hostOpts ++ [⟨dhcpClassIdentifier, c.classId⟩, ⟨dhcpClientIdentifier, id⟩])

def leaseOpts (t : DhcpOptions) : List Tlv.Opt :=
  match t.val dhcpIPaddrLeaseTime with
  | none => []
  | some b => [⟨dhcpIPaddrLeaseTime, b.take 4⟩]

def typeAndSize (type : UInt8) : List Tlv.Opt := [⟨dhcpMessageType, [type]⟩, ⟨dhcpMaxMsgSize, htons 548⟩]

/-- What each message is to say. -/
def said (c : Config) (id : List UInt8) (t : DhcpOptions) (pointer : BitVec 32) : Kind → List Tlv.Opt
  | .discover => typeAndSize DHCP_DISCOVER ++ (if c.ciaddr = 0 then [] else c.requestedOpts) ++
      [⟨dhcpIPaddrLeaseTime, c.nleaseTime⟩] ++ c.tailOpts id
  | .request =>
      typeAndSize DHCP_REQUEST ++ [⟨dhcpServerIdentifier, ((t.val dhcpServerIdentifier).getD []).take 4⟩] ++
      c.requestedOpts ++ leaseOpts t ++ c.tailOpts id
  | .renew => typeAndSize DHCP_REQUEST ++ leaseOpts t ++ c.tailOpts id
  | .rebind => typeAndSize DHCP_REQUEST ++ leaseOpts t ++ c.tailOpts id
  | .reboot =>
      typeAndSize DHCP_REQUEST ++ c.requestedOpts ++ [⟨dhcpIPaddrLeaseTime, c.nleaseTime⟩] ++ c.tailOpts id
  | .release => [⟨dhcpMessageType, [DHCP_RELEASE]⟩] ++ [⟨dhcpServerIdentifier, toLE 4 pointer.toNat⟩] ++
      [⟨dhcpClientIdentifier, id⟩]
  | .inform => typeAndSize DHCP_INFORM ++ c.tailOpts id

theorem optsBytes_address {c : UInt8} {addr : List UInt8} (h : addr.length = 4) :
    optsBytes [⟨c, addr⟩] = addressBytes c addr := by
  simp only [optsBytes_cons, optsBytes_nil, h, addressBytes, List.append_nil, List.cons_append,
    List.nil_append]
  rfl

section Parts

variable {c : Config} {id : List UInt8}

theorem optsBytes_requestedOpts (c : Config) : optsBytes c.requestedOpts = c.requestedBytes := by
  rw [Config.requestedOpts, Config.requestedBytes]
  split
  · rfl
  · exact optsBytes_address (length_toLE _ _)

theorem optsBytes_tailOpts (h : c.Ok id) : optsBytes (c.tailOpts id) ++ [endOption] = c.tailBytes := by
  have hhost : optsBytes c.hostOpts = c.hostBytes := by
    rw [Config.hostOpts, Config.hostBytes]
    cases c.host with
    | none => rfl
    | some name => simp [optsBytes_cons, optsBytes_nil]
  rw [Config.tailOpts, optsBytes_cons, optsBytes_append, hhost, Config.tailBytes, h.clientId]
  simp [optsBytes_cons, optsBytes_nil, Config.classBytes, paramBytes, requested]

theorem optsBytes_typeAndSize (type : UInt8) :
    optsBytes (typeAndSize type) = typeBytes type ++ sizeBytes := rfl

theorem length_bootp (h : c.Ok id) (xid : BitVec 32) (secs flags : Nat) (ciaddr : BitVec 32) :
    (bootp c xid secs flags ciaddr).length = 236 := by
  simp only [bootp, List.length_append, List.length_replicate, length_toLE, length_htons, h.hwAddr,
    List.length_cons, List.length_nil]

/-- What is written for four bytes of a block. -/
theorem first4_eq {t : DhcpOptions} {x : UInt8} {v : List UInt8} (h : t.first4 x = some v) :
    ∃ b, t.val x = some b ∧ v = b.take 4 ∧ v.length = 4 := by
  obtain ⟨b, hb, hv⟩ := Option.bind_eq_some_iff.mp h
  rw [fetch] at hv
  split at hv
  · cases hv
    exact ⟨b, hb, by rw [load, List.drop_zero], length_load ‹_›⟩
  · cases hv

theorem leaseBytes_eq {t : DhcpOptions} {bs : List UInt8} (h : leaseBytes t = some bs) :
    optsBytes (leaseOpts t) = bs := by
  cases hv : t.val dhcpIPaddrLeaseTime with
  | none =>
      simp only [leaseBytes, hv, Option.some.injEq] at h
      simp [leaseOpts, hv, optsBytes_nil, ← h]
  | some b =>
      simp only [leaseBytes, hv, Option.map_eq_some_iff] at h
      obtain ⟨v, hf, rfl⟩ := h
      obtain ⟨b', hb', rfl, hlen⟩ := first4_eq hf
      rw [hv] at hb'
      cases hb'
      simp only [leaseOpts, hv, optsBytes_address hlen]

end Parts

/-- How a message is put together. -/
theorem build_eq {k : Kind} {c : Config} {id : List UInt8} {t : DhcpOptions} {pointer xid : BitVec 32}
    {f : List UInt8} (h : c.Ok id) (hf : build k c t pointer xid = some f) :
    ∃ dhost secs flags ciaddr saddr daddr, dhost.length = 6 ∧
      f = assemble c dhost (bootp c xid secs flags ciaddr)
      (optsBytes (said c id t pointer k) ++ [endOption]) saddr daddr := by
  have htail := (optsBytes_tailOpts h).symm
  have hlease := optsBytes_address (c := dhcpIPaddrLeaseTime) h.nleaseTime
  cases k with
  | discover =>
      have hreq : optsBytes (if c.ciaddr = 0 then [] else c.requestedOpts) = if c.ciaddr = 0 then []
          else c.requestedBytes := by
        split
        · rfl
        · exact optsBytes_requestedOpts c
      cases hf
      refine ⟨MAC_BCAST_ADDR, 10, c.flags, if c.ciaddr = 0 then 0 else c.requestedField, 0,
        INADDR_BROADCAST, rfl, ?_⟩
      simp only [said, optsBytes_append, optsBytes_typeAndSize, hreq, hlease, List.append_assoc,
        buildDhcpDiscover, htail]
  | request =>
      simp only [build, buildDhcpRequest, Option.bind_eq_bind, Option.bind_eq_some_iff] at hf
      obtain ⟨sid, hsid, bs, hbs, hf⟩ := hf
      obtain ⟨b, hb, rfl, hlen⟩ := first4_eq hsid
      cases hf
      refine ⟨MAC_BCAST_ADDR, 10, c.flags, c.requestedField, 0, INADDR_BROADCAST, rfl, ?_⟩
      simp only [said, optsBytes_append, optsBytes_typeAndSize, optsBytes_requestedOpts,
        leaseBytes_eq hbs, List.append_assoc, htail, hb, Option.getD_some, optsBytes_address hlen]
  | renew =>
      obtain ⟨bs, hbs, hf⟩ := Option.bind_eq_some_iff.mp hf
      cases hf
      refine ⟨c.shaddr, 10, c.flags, c.ciaddr, c.ciaddr, c.siaddr, h.shaddr, ?_⟩
      simp only [said, optsBytes_append, optsBytes_typeAndSize, leaseBytes_eq hbs, List.append_assoc, htail]
  | rebind =>
      obtain ⟨bs, hbs, hf⟩ := Option.bind_eq_some_iff.mp hf
      cases hf
      refine ⟨MAC_BCAST_ADDR, 10, c.flags, c.ciaddr, c.ciaddr, INADDR_BROADCAST, rfl, ?_⟩
      simp only [said, optsBytes_append, optsBytes_typeAndSize, leaseBytes_eq hbs, List.append_assoc, htail]
  | reboot =>
      cases hf
      refine ⟨MAC_BCAST_ADDR, 10, c.flags, c.requestedField, 0, INADDR_BROADCAST, rfl, ?_⟩
      simp only [said, optsBytes_append, optsBytes_typeAndSize, optsBytes_requestedOpts, hlease,
        List.append_assoc, buildDhcpReboot, htail]
  | release =>
      cases hf
      refine ⟨c.shaddr, 0, 0, c.ciaddr, c.ciaddr, c.siaddr, h.shaddr, ?_⟩
      have hid : optsBytes [⟨dhcpClientIdentifier, id⟩] = c.clientId := by
        rw [h.clientId, optsBytes_cons, optsBytes_nil, List.append_nil]
      have htype : optsBytes [⟨dhcpMessageType, [DHCP_RELEASE]⟩] = typeBytes DHCP_RELEASE := rfl
      simp only [said, optsBytes_append, htype, optsBytes_address (length_toLE 4 pointer.toNat), hid,
        List.append_assoc, buildDhcpRelease]
  | inform =>
      cases hf
      refine ⟨MAC_BCAST_ADDR, 10, c.flags, c.informIpaddr, 0, INADDR_BROADCAST, rfl, ?_⟩
      simp only [said, optsBytes_append, optsBytes_typeAndSize, List.append_assoc, buildDhcpInform, htail]

/-! ## Sizes -/

section Sizes

variable {c : Config} {id : List UInt8}

theorem fits_typeAndSize (type : UInt8) : Fits (typeAndSize type) 7 :=
  (Fits.one (n := 1) (by decide) (by decide) (by simp) (by decide)).append
    (Fits.one (n := 2) (by decide) (by decide) (by simp) (by decide))

theorem fits_requestedOpts (c : Config) : Fits c.requestedOpts 6 := by
  rw [Config.requestedOpts]
  split
  · exact .nil 6
  · exact .one (n := 4) (by decide) (by decide) (by simp [ciaddrBytes]) (by decide)

theorem fits_leaseOpts (t : DhcpOptions) : Fits (leaseOpts t) 6 := by
  rw [leaseOpts]
  split
  · exact .nil 6
  · exact .one (n := 4) (by decide) (by decide) (by simp) (by decide)

theorem fits_hostOpts (h : c.Ok id) : Fits c.hostOpts 66 := by
  rw [Config.hostOpts]
  cases hh : c.host with
  | none => exact .nil 66
  | some name => exact .one (n := 64) (by decide) (by decide) (h.host name (by simp [hh])) (by decide)

theorem fits_tailOpts (h : c.Ok id) : Fits (c.tailOpts id) 180 := by
  have hid := h.id
  have hparam : Fits [⟨dhcpParamRequest, requested⟩] 16 :=
    .one (n := 14) (by decide) (by decide) (by decide) (by decide)
  have hclass : Fits [⟨dhcpClassIdentifier, c.classId⟩] 50 :=
    .one (by decide) (by decide) h.classId (by decide)
  have hclient : Fits [⟨dhcpClientIdentifier, id⟩] 48 :=
    .one (n := 46) (by decide) (by decide) (by simp only [CLIENT_ID_MAX_LEN] at hid; omega) (by decide)
  exact hparam.append ((fits_hostOpts h).append (hclass.append hclient))

theorem fits_said (h : c.Ok id) (t : DhcpOptions) (pointer : BitVec 32) (k : Kind) :
    Fits (said c id t pointer k) 205 := by
  have hword : ∀ (x : UInt8) (v : List UInt8), x ≠ padOption → x ≠ endOption → v.length ≤ 4 →
      Fits [⟨x, v⟩] 6 :=
    fun x v hp he hv => .one hp he hv (by decide)
  have hlease := hword dhcpIPaddrLeaseTime c.nleaseTime (by decide) (by decide) h.nleaseTime.le
  have htail := fits_tailOpts h
  cases k with
  | discover =>
      have hreq : Fits (if c.ciaddr = 0 then [] else c.requestedOpts) 6 := by
        split
        · exact .nil 6
        · exact fits_requestedOpts c
      exact ((((fits_typeAndSize _).append hreq).append hlease).append htail).mono (by decide)
  | request =>
      have hsid := hword dhcpServerIdentifier (((t.val dhcpServerIdentifier).getD []).take 4)
        (by decide) (by decide) (by simp)
      exact (((((fits_typeAndSize _).append hsid).append (fits_requestedOpts c)).append
        (fits_leaseOpts t)).append htail).mono (by decide)
  | renew => exact (((fits_typeAndSize _).append (fits_leaseOpts t)).append htail).mono (by decide)
  | rebind => exact (((fits_typeAndSize _).append (fits_leaseOpts t)).append htail).mono (by decide)
  | reboot =>
      exact ((((fits_typeAndSize _).append (fits_requestedOpts c)).append hlease).append htail).mono
        (by decide)
  | release =>
      have hid := h.id
      have hclient : Fits [⟨dhcpClientIdentifier, id⟩] 48 :=
        .one (n := 46) (by decide) (by decide) (by simp only [CLIENT_ID_MAX_LEN] at hid; omega) (by decide)
      have hsid := hword dhcpServerIdentifier (toLE 4 pointer.toNat) (by decide) (by decide) (by simp)
      have htype : Fits [⟨dhcpMessageType, [DHCP_RELEASE]⟩] 3 :=
        .one (n := 1) (by decide) (by decide) (by simp) (by decide)
      exact ((htype.append hsid).append hclient).mono (by decide)
  | inform => exact ((fits_typeAndSize _).append htail).mono (by decide)

end Sizes

/-! ## What is sent -/

theorem drop_sent {eth m : List UInt8} {h : Header} (heth : eth.length = ETH_HLEN) (k : Nat) :
    (eth ++ udpipgen m h).drop (ETH_HLEN + 28 + k) = m.drop (28 + k) := by
  have hsplit : eth ++ udpipgen m h =
      (eth ++ ipHeader h.msglen h.ipId h.ipSum h.saddr h.daddr ++ udphdr h (uhSum m h)) ++ m.drop 28 := by
    simp only [udpipgen_eq, List.append_assoc]
  rw [hsplit, ← List.drop_drop, List.drop_left' (by simp [heth]), List.drop_drop]

theorem drop_store_append {m a b : List UInt8} {off k : Nat} (hoff : off ≤ m.length) (ha : a.length = k) :
    (store m off (a ++ b)).drop (off + k) = b ++ m.drop (off + (a ++ b).length) := by
  have hsplit : store m off (a ++ b) = (m.take off ++ a) ++ (b ++ m.drop (off + (a ++ b).length)) := by
    simp only [store, List.append_assoc]
  rw [hsplit, List.drop_left' (by simp [ha]; omega)]

/-- The options of a frame that was put together from them. -/
theorem options_assemble {c : Config} {id dhost fixed : List UInt8} {os : List Tlv.Opt} {n : Nat}
    (saddr daddr : BitVec 32) (h : c.Ok id) (hd : dhost.length = 6) (hfix : fixed.length = 236)
    (hos : Fits os n) (hn : n ≤ 307) :
    let f := assemble c dhost fixed (optsBytes os ++ [endOption]) saddr daddr
    f.length = FRAME_SIZE ∧ udpipchk f = some (0, f) ∧
      Tlv.decode padOption endOption 308 (f.drop (msgRecv 20 + 240)) = os := by
  have hsize := hos.size
  have hcookie : magicCookie.length = 4 := rfl
  have heth : (dhost ++ c.hwAddr ++ htons 0x0800).length = ETH_HLEN := by simp [hd, h.hwAddr, ETH_HLEN]
  have hbody : 28 + (fixed ++ magicCookie ++ (optsBytes os ++ [endOption])).length ≤
      (List.replicate IPPACKET_SIZE (0 : UInt8)).length := by
    simp only [List.length_append, hfix, hcookie, List.length_singleton, List.length_replicate, IPPACKET_SIZE]
    omega
  have hm := length_store hbody
  rw [List.length_replicate, IPPACKET_SIZE] at hm
  dsimp only
  refine ⟨?_, ?_, ?_⟩
  · rw [assemble, List.length_append, heth, length_udpipgen _ (by rw [IPPACKET_SIZE, hm]; decide),
      IPPACKET_SIZE, hm]
    rfl
  · refine udpipchk_udpipgen _ _ _ heth ?_ (show (548 : BitVec 16).toNat + 28 ≤ 65535 by decide)
    rw [IPPACKET_SIZE, hm]
    exact show (548 : BitVec 16).toNat + 28 ≤ 1500 by decide
  · have hdrop : (assemble c dhost fixed (optsBytes os ++ [endOption]) saddr daddr).drop (msgRecv 20 + 240) =
        optsBytes os ++ endOption :: (List.replicate IPPACKET_SIZE 0).drop
          (28 + (fixed ++ magicCookie ++ (optsBytes os ++ [endOption])).length) := by
      rw [assemble, show msgRecv 20 + 240 = ETH_HLEN + 28 + 240 from rfl, drop_sent heth,
        drop_store_append (by rw [List.length_replicate]; decide) (by rw [List.length_append, hfix, hcookie])]
      simp only [List.append_assoc, List.singleton_append]
    rw [hdrop]
    exact decode_optsBytes hos (by omega) _

/-- Every message passes the client's check of its headers, and the client's parser finds in it what it
is to say. -/
theorem build_parses (k : Kind) (c : Config) (id : List UInt8) (t : DhcpOptions)
    (pointer xid : BitVec 32) (f : List UInt8) (h : c.Ok id) (hf : build k c t pointer xid = some f) :
    f.length = FRAME_SIZE ∧ udpipchk f = some (0, f) ∧ ∀ ciaddr,
      (Reply.mk f 20 ciaddr).options = said c id t pointer k := by
  obtain ⟨dhost, secs, flags, ciaddr, saddr, daddr, hd, rfl⟩ := build_eq h hf
  obtain ⟨hlen, hchk, hopts⟩ := options_assemble saddr daddr h hd (length_bootp h xid secs flags ciaddr)
    (fits_said h t pointer k) (by decide)
  exact ⟨hlen, hchk, fun _ => hopts⟩

/-- The identifier of the client, as `clientIDsetup` leaves it. -/
theorem clientIDsetup_eq {hwAddr : List UInt8} (h : hwAddr.length = 6) (id : Option (List UInt8)) :
    clientIDsetup hwAddr id = dhcpClientIdentifier ::
      UInt8.ofNat (id.elim (1 :: hwAddr) (List.cons 0)).length :: id.elim (1 :: hwAddr) (List.cons 0) := by
  cases id with
  | none => simp [clientIDsetup, h]
  | some id => simp [clientIDsetup]

/-- A client with the name `cam` that asks for 10.0.0.9. -/
def cam : Config where
  hwAddr := [0, 1, 2, 3, 4, 5]
  host := some [99, 97, 109, 0]
  classId := [76]
  clientId := clientIDsetup [0, 1, 2, 3, 4, 5] none
  ciaddr := 0x0900000a
  siaddr := 0
  shaddr := [6, 5, 4, 3, 2, 1]
  informIpaddr := 0
  broadcastResp := false
  beRFC1541 := false
  nleaseTime := [255, 255, 255, 255]
  ipId := 1

theorem build_parses_request :
    ∃ f, build .request cam
        (DhcpOptions.released.install dhcpServerIdentifier 4 [10, 0, 0, 1] true) 0 7 = some f ∧
      udpipchk f = some (0, f) ∧
      (Reply.mk f 20 [0, 0, 0, 0]).options =
        [⟨53, [3]⟩, ⟨57, [2, 36]⟩, ⟨54, [10, 0, 0, 1]⟩, ⟨50, [10, 0, 0, 9]⟩, ⟨55, requested⟩,
          ⟨12, [99, 97, 109, 0]⟩, ⟨60, [76]⟩, ⟨61, [1, 0, 1, 2, 3, 4, 5]⟩] := by
  have hok : cam.Ok [1, 0, 1, 2, 3, 4, 5] :=
    ⟨rfl, rfl, rfl, by simp [cam, HOSTNAME_MAX_LEN], by decide, clientIDsetup_eq rfl none, by decide⟩
  obtain ⟨-, hchk, hopts⟩ := build_parses .request cam _
    (DhcpOptions.released.install dhcpServerIdentifier 4 [10, 0, 0, 1] true) 0 7 _ hok rfl
  exact ⟨_, rfl, hchk, (hopts _).trans rfl⟩

end CameraFw.Dhcp
