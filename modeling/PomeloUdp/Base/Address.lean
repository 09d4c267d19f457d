import PomeloUdp.Base.Payload

/-!
# Addresses in memory

`pomelo_address_t` keeps its port and the groups of an IPv6 address in network
byte order. `Address.ip` and `Address.port` give them in the order of the host and
`Address.set` puts them back.
-/

namespace PomeloUdp

namespace Codec

/-- The byte order of a host. -/
inductive ByteOrder where
  | littleEndian
  | bigEndian
  deriving DecidableEq

/-- `htons`, and `ntohs`. -/
def ByteOrder.htons : ByteOrder → UInt16 → UInt16
  | littleEndian, value => value <<< 8 ||| value >>> 8
  | bigEndian, value => value

@[simp] theorem ByteOrder.htons_htons (order : ByteOrder) (value : UInt16) :
    order.htons (order.htons value) = value := by
  cases order with
  | bigEndian => rfl
  | littleEndian =>
      apply UInt16.toBitVec_inj.mp
      simp only [htons, UInt16.toBitVec_or, UInt16.toBitVec_shiftLeft, UInt16.toBitVec_shiftRight]
      ext i hi
      have htop : value.toBitVec.getLsbD (8 + (8 + i)) = false :=
        BitVec.getLsbD_of_ge _ _ (by omega)
      by_cases hlow : i < 8
      · have hmiddle : 8 + i - 8 = i := by omega
        simp [hlow, hmiddle, htop, show 8 + i < 16 by omega]
      · have hmiddle : 8 + (i - 8) = i := by omega
        simp [hlow, hmiddle, htop, BitVec.getLsbD_eq_getElem hi, show i - 8 < 8 by omega]

/-- `pomelo_address_ip_t`. -/
inductive AddressIp where
  | v4 (bytes : Vector UInt8 4)
  | v6 (groups : Vector UInt16 8)
  deriving DecidableEq

/-- `pomelo_address_t`, with the groups and the port in network byte order. -/
inductive Address where
  | ipv4 (ip : Vector UInt8 4) (port : UInt16)
  | ipv6 (ip : Vector UInt16 8) (port : UInt16)
  deriving DecidableEq

namespace Address

/-- `pomelo_address_type`. -/
def type : Address → UInt8
  | ipv4 _ _ => 1
  | ipv6 _ _ => 2

/-- `pomelo_address_ip`. -/
def ip (order : ByteOrder) : Address → AddressIp
  | ipv4 ip _ => .v4 ip
  | ipv6 ip _ => .v6 (ip.map order.htons)

/-- `pomelo_address_port`. -/
def port (order : ByteOrder) : Address → UInt16
  | ipv4 _ port => order.htons port
  | ipv6 _ port => order.htons port

/-- `pomelo_address_set` of an address that had a value before. -/
def set (order : ByteOrder) (old : Address) (type : UInt8) (ip : AddressIp) (port : UInt16) :
    Address :=
  match ip with
  | .v4 bytes => if type = 1 then .ipv4 bytes (order.htons port) else old
  | .v6 groups => if type = 2 then .ipv6 (groups.map order.htons) (order.htons port) else old

theorem set_ip_port (order : ByteOrder) (old a : Address) :
    set order old a.type (a.ip order) (a.port order) = a := by
  cases a with
  | ipv4 ip port => simp [set, type, Address.ip, Address.port]
  | ipv6 ip port =>
      have hgroups : (ip.map order.htons).map order.htons = ip := by
        simp [Function.comp_def]
      simp [set, type, Address.ip, Address.port, hgroups]

end Address

end Codec

end PomeloUdp
