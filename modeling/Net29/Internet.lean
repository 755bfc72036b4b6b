import Net29.Basic
import Net29.Lib.Memory

/-!
# Internet addresses and endpoints

`ip::address` holds a `sockaddr` in a union, `basic_endpoint` in the storage of `detail::endpoint`;
both are read and written through the structure of the family.

* `Address.ofV4`, `ofV6`, `toV4`, `toV6`;
* `BasicEndpoint.ofAddress`, `address`, `port`, `protocol`, `size`;
* `round_trip_iff`: which endpoints give back the address and the port they were built from.

The byte order of the host is a parameter. `raw` is what an uninitialised union holds.
-/

namespace Net29

open Memory

def AF_INET : ℕ := 2
def AF_INET6 : ℕ := 10
def PF_INET : ℕ := AF_INET
def PF_INET6 : ℕ := AF_INET6

/-- `sizeof(sockaddr_in)`. -/
def sizeofSockaddrIn : ℕ := 16

/-- `sizeof(sockaddr_in6)`. -/
def sizeofSockaddrIn6 : ℕ := 28

/-- `ss_family`, `sin_family` and `sin6_family`. -/
def familyField : Field := ⟨0, 2⟩
def sinPort : Field := ⟨2, 2⟩
def sinAddr : Field := ⟨4, 4⟩
def sin6Port : Field := ⟨2, 2⟩
def sin6Flowinfo : Field := ⟨4, 4⟩
def sin6ScopeId : Field := ⟨24, 4⟩

/-- The offset of `sin6_addr`, which has 16 bytes. -/
def sin6Addr : ℕ := 8

/-- `ip::tcp`. -/
structure Tcp where
  family : ℕ
  deriving DecidableEq, Repr

def Tcp.v4 : Tcp := ⟨PF_INET⟩
def Tcp.v6 : Tcp := ⟨PF_INET6⟩

/-- `ip::address_v4`. -/
structure AddressV4 where
  address : UInt32
  deriving DecidableEq, Repr

/-- `ip::address_v6`. -/
structure AddressV6 where
  bytes : Fin 16 → UInt8

/-- `address_v6::get_address`: the structure filled in, and its size. -/
def AddressV6.getAddress (host : ByteOrder) (a : AddressV6) (addr : Memory) (port : UInt16) :
    Memory × ℕ :=
  let addr := addr.set host familyField AF_INET6
  let addr := addr.set host sin6Port (host.toNetwork 2 port.toNat)
  let addr := addr.set host sin6Flowinfo 0
  let addr := addr.write sin6Addr (List.ofFn a.bytes)
  let addr := addr.set host sin6ScopeId 0
  (addr, sizeofSockaddrIn6)

/-- `ip::address`: the bytes of its union. -/
structure Address where
  storage : Memory

namespace Address

variable (host : ByteOrder)

/-- The default constructor. -/
def default : Address := ⟨set (fun _ => 0) host familyField PF_INET⟩

/-- The constructor from an `address_v4`. -/
def ofV4 (raw : Memory) (addr : AddressV4) : Address :=
  let inet := raw.set host familyField AF_INET
  let inet := inet.set host sinAddr (host.toNetwork 4 addr.address.toNat)
  ⟨inet.set host sinPort 0xFFFF⟩

/-- The constructor from an `address_v6`. -/
def ofV6 (raw : Memory) (addr : AddressV6) : Address := ⟨(addr.getAddress host raw 0xFFFF).1⟩

/-- `ss_family`. -/
def family (a : Address) : ℕ := a.storage.get host familyField

/-- `is_v4`. -/
def isV4 (a : Address) : Bool := a.family host = PF_INET

/-- `is_v6`. -/
def isV6 (a : Address) : Bool := a.family host = PF_INET6

/-- `to_v4`. -/
def toV4 (a : Address) : AddressV4 :=
  ⟨UInt32.ofNat (host.ofNetwork 4 (a.storage.get host sinAddr))⟩

/-- `to_v6`. -/
def toV6 (a : Address) : AddressV6 := ⟨fun i => a.storage (sin6Addr + i)⟩

end Address

/-- The storage of an endpoint. -/
def Endpoint.storage (e : Endpoint) : Memory := Memory.ofBytes e.data

/-- The constructor of `detail::endpoint` from a pointer: at most the storage is copied, the size is
kept as it is. -/
def Endpoint.ofPointer (data : Memory) (size : ℕ) : Endpoint :=
  let bytes := data.read 0 (min size sizeofSockaddrStorage)
  { Endpoint.empty.write bytes sizeofSockaddrStorage with size := size }

/-- A field of the storage is assigned. -/
def Endpoint.assign (host : ByteOrder) (e : Endpoint) (f : Field) (n : ℕ) : Endpoint :=
  { e with data := (e.storage.set host f n).read 0 sizeofSockaddrStorage }

/-- `ip::basic_endpoint<tcp>`, which adds no member to its base. -/
structure BasicEndpoint where
  base : Endpoint
  deriving DecidableEq, Repr

namespace BasicEndpoint

variable (host : ByteOrder)

/-- The constructor from an address and a port. -/
def ofAddress (address : Address) (port : UInt16) : BasicEndpoint :=
  let v4 := address.isV4 host
  let base :=
    Endpoint.ofPointer address.storage (if v4 then sizeofSockaddrIn else sizeofSockaddrIn6)
  ⟨base.assign host (if v4 then sinPort else sin6Port) (host.toNetwork 2 port.toNat)⟩

/-- `ss_family`. -/
def family (e : BasicEndpoint) : ℕ := e.base.storage.get host familyField

/-- `protocol`. -/
def protocol (e : BasicEndpoint) : Tcp := if e.family host = PF_INET then Tcp.v4 else Tcp.v6

/-- `address`. -/
def address (raw : Memory) (e : BasicEndpoint) : Address :=
  if e.family host = PF_INET then
    Address.ofV4 host raw ⟨UInt32.ofNat (host.ofNetwork 4 (e.base.storage.get host sinAddr))⟩
  -- the case of `PF_INET6` is commented out
  else Address.default host

/-- `port`. -/
def port (e : BasicEndpoint) : UInt16 :=
  if e.family host = PF_INET then
    UInt16.ofNat (host.ofNetwork 2 (e.base.storage.get host sinPort))
  else if e.family host = PF_INET6 then
    UInt16.ofNat (host.ofNetwork 2 (e.base.storage.get host sin6Port))
  else 0

/-- `size`, which hides that of the base. -/
def size (e : BasicEndpoint) : ℕ :=
  if e.family host = PF_INET then sizeofSockaddrIn else sizeofSockaddrIn6

end BasicEndpoint

/-! ### Addresses -/

variable {host : ByteOrder} {raw raw' m : Memory} {port : UInt16} {f : Field} {a n v k : ℕ}

namespace Address

@[simp] theorem family_default : (default host).family host = PF_INET :=
  get_set_self (fun _ => 0) (show PF_INET < 256 ^ familyField.width by decide)

@[simp] theorem family_ofV4 (addr : AddressV4) : (ofV4 host raw addr).family host = PF_INET := by
  rw [family, ofV4, get_set_of_disjoint _ _ (by decide), get_set_of_disjoint _ _ (by decide),
    get_set_self _ (by decide)]
  rfl

theorem get_ofV4 (addr : AddressV4) :
    (ofV4 host raw addr).storage.get host sinAddr = host.toNetwork 4 addr.address.toNat := by
  have hlt : host.toNetwork 4 addr.address.toNat < 256 ^ sinAddr.width := host.toNetwork_lt ..
  rw [ofV4, get_set_of_disjoint _ _ (by decide), get_set_self _ hlt]

/-- An address in network order is read back. -/
theorem ofNetwork_v4 (addr : AddressV4) :
    AddressV4.mk (UInt32.ofNat (host.ofNetwork 4 (host.toNetwork 4 addr.address.toNat))) =
      addr := by
  rw [ByteOrder.ofNetwork_toNetwork addr.address.toNat_lt]
  simp

theorem toV4_ofV4 (addr : AddressV4) : (ofV4 host raw addr).toV4 host = addr := by
  rw [toV4, get_ofV4, ofNetwork_v4]

theorem storage_ofV6 (addr : AddressV6) :
    (ofV6 host raw addr).storage =
      ((((raw.set host familyField AF_INET6).set host sin6Port (host.toNetwork 2 0xFFFF)).set host
        sin6Flowinfo 0).write sin6Addr (List.ofFn addr.bytes)).set host sin6ScopeId 0 := rfl

@[simp] theorem family_ofV6 (addr : AddressV6) : (ofV6 host raw addr).family host = PF_INET6 := by
  rw [family, storage_ofV6, get_set_of_disjoint _ _ (by decide),
    get_write_of_disjoint (.inl (by decide)), get_set_of_disjoint _ _ (by decide),
    get_set_of_disjoint _ _ (by decide), get_set_self _ (by decide)]
  rfl

end Address

/-! ### Endpoints -/

namespace Endpoint

theorem data_ofPointer (m : Memory) (size : ℕ) :
    ∃ rest, (ofPointer m size).data = m.read 0 (min size sizeofSockaddrStorage) ++ rest := by
  refine ⟨_, congrArg (· ++ _) (List.take_of_length_le ?_)⟩
  rw [length_read]
  exact Nat.min_le_right ..

/-- What the pointer pointed to is in the storage, as far as it was copied. -/
theorem read_ofPointer (h : a + n ≤ min k sizeofSockaddrStorage) :
    (ofPointer m k).storage.read a n = m.read a n := by
  obtain ⟨rest, hdata⟩ := data_ofPointer m k
  rw [storage, hdata, read_ofBytes h]

theorem read_assign (e : Endpoint) (v : ℕ) (h : a + n ≤ sizeofSockaddrStorage) :
    (e.assign host f v).storage.read a n = (e.storage.set host f v).read a n := by
  have hread := read_ofBytes (m := e.storage.set host f v) h []
  rwa [List.append_nil] at hread

@[simp] theorem size_ofPointer : (ofPointer m k).size = k := rfl
@[simp] theorem size_assign (e : Endpoint) : (e.assign host f v).size = e.size := rfl

end Endpoint

namespace BasicEndpoint

/-- The size of the address structure that an address is copied as. -/
def sockaddrSize (host : ByteOrder) (addr : Address) : ℕ :=
  if addr.isV4 host then sizeofSockaddrIn else sizeofSockaddrIn6

/-- Both families have the port in the same place. -/
theorem base_ofAddress (addr : Address) (port : UInt16) :
    (ofAddress host addr port).base =
      (Endpoint.ofPointer addr.storage (sockaddrSize host addr)).assign host sinPort
        (host.toNetwork 2 port.toNat) := by
  have hport : (if addr.isV4 host then sinPort else sin6Port) = sinPort := ite_self sinPort
  rw [ofAddress, hport, sockaddrSize]

theorem sockaddrSize_le (addr : Address) :
    sizeofSockaddrIn ≤ sockaddrSize host addr ∧ sockaddrSize host addr ≤ sizeofSockaddrStorage := by
  unfold sockaddrSize
  split <;> decide

/-- The port apart, an endpoint has the bytes of its address. -/
theorem read_ofAddress (addr : Address) (port : UInt16)
    (h : a + n ≤ 2 ∨ 4 ≤ a ∧ a + n ≤ sockaddrSize host addr) :
    (ofAddress host addr port).base.storage.read a n = addr.storage.read a n := by
  have hsize : sizeofSockaddrIn ≤ sockaddrSize host addr ∧
      sockaddrSize host addr ≤ sizeofSockaddrStorage := sockaddrSize_le addr
  simp only [sizeofSockaddrIn, sizeofSockaddrStorage] at hsize
  rw [base_ofAddress, Endpoint.read_assign _ _ (by simp only [sizeofSockaddrStorage]; omega),
    read_set_of_disjoint, Endpoint.read_ofPointer]
  · simp only [sizeofSockaddrStorage]
    omega
  · simp only [sinPort]
    omega

@[simp] theorem family_ofAddress (addr : Address) (port : UInt16) :
    (ofAddress host addr port).family host = addr.family host :=
  get_congr (read_ofAddress addr port (.inl (by decide)))

/-- The port is read back from its field. -/
theorem get_port_ofAddress (addr : Address) (port : UInt16) :
    (ofAddress host addr port).base.storage.get host sinPort = host.toNetwork 2 port.toNat := by
  have hlt : host.toNetwork 2 port.toNat < 256 ^ sinPort.width := host.toNetwork_lt ..
  have hend : sinPort.offset + sinPort.width ≤ sizeofSockaddrStorage := by decide
  rw [base_ofAddress, get_congr (Endpoint.read_assign _ _ hend), get_set_self _ hlt]

theorem ofNetwork_port (port : UInt16) :
    UInt16.ofNat (host.ofNetwork 2 (host.toNetwork 2 port.toNat)) = port := by
  rw [ByteOrder.ofNetwork_toNetwork port.toNat_lt]
  simp

/-- An endpoint of either family gives back its port. -/
theorem port_ofAddress {addr : Address} (port : UInt16)
    (h : addr.family host = PF_INET ∨ addr.family host = PF_INET6) :
    (ofAddress host addr port).port host = port := by
  have hport : UInt16.ofNat (host.ofNetwork 2
      ((ofAddress host addr port).base.storage.get host sinPort)) = port := by
    rw [get_port_ofAddress, ofNetwork_port]
  unfold BasicEndpoint.port
  split_ifs with h4 h6
  · exact hport
  · exact hport
  · rw [family_ofAddress] at h4 h6
    exact absurd h (by simp [h4, h6])

/-- The size of the base is the one that is computed from the family. -/
theorem size_ofAddress (addr : Address) (port : UInt16) :
    (ofAddress host addr port).base.size = (ofAddress host addr port).size host := by
  rw [base_ofAddress, Endpoint.size_assign, Endpoint.size_ofPointer, BasicEndpoint.size,
    family_ofAddress, sockaddrSize, Address.isV4]
  simp

theorem address_of_v4 {e : BasicEndpoint} (h : e.family host = PF_INET) :
    e.address host raw =
      Address.ofV4 host raw ⟨UInt32.ofNat (host.ofNetwork 4 (e.base.storage.get host sinAddr))⟩ :=
  if_pos h

theorem address_of_not_v4 {e : BasicEndpoint} (h : e.family host ≠ PF_INET) :
    e.address host raw = Address.default host := if_neg h

end BasicEndpoint

/-! ### The round trip -/

/-- An address that an endpoint can be built from. -/
inductive IpAddress
  | v4 (addr : AddressV4)
  | v6 (addr : AddressV6)

namespace IpAddress

/-- The conversions to `ip::address`. -/
def toAddress (host : ByteOrder) (raw : Memory) : IpAddress → Address
  | .v4 addr => Address.ofV4 host raw addr
  | .v6 addr => Address.ofV6 host raw addr

/-- The protocol of the family. -/
def protocol : IpAddress → Tcp
  | .v4 _ => Tcp.v4
  | .v6 _ => Tcp.v6

/-- The size of the family's address structure. -/
def sockaddrSize : IpAddress → ℕ
  | .v4 _ => sizeofSockaddrIn
  | .v6 _ => sizeofSockaddrIn6

/-- `addr` is of the same family and converts back to the same address. -/
def Denotes (host : ByteOrder) (addr : Address) : IpAddress → Prop
  | .v4 ip => addr.isV4 host = true ∧ addr.toV4 host = ip
  | .v6 ip => addr.isV6 host = true ∧ addr.toV6 = ip

theorem family_toAddress (ip : IpAddress) :
    (ip.toAddress host raw).family host = ip.protocol.family := by
  cases ip with
  | v4 addr => exact Address.family_ofV4 addr
  | v6 addr => exact Address.family_ofV6 addr

end IpAddress

/-- The endpoint gives back the address and the port; its protocol and both its sizes are those of
the family. -/
structure GivesBack (host : ByteOrder) (raw : Memory) (e : BasicEndpoint) (ip : IpAddress)
    (port : UInt16) : Prop where
  address : ip.Denotes host (e.address host raw)
  port : e.port host = port
  protocol : e.protocol host = ip.protocol
  base : e.base.size = ip.sockaddrSize
  derived : e.size host = ip.sockaddrSize

namespace BasicEndpoint

theorem protocol_ofAddress (ip : IpAddress) (port : UInt16) :
    (ofAddress host (ip.toAddress host raw) port).protocol host = ip.protocol := by
  rw [BasicEndpoint.protocol, family_ofAddress, IpAddress.family_toAddress]
  cases ip <;> rfl

theorem size_toAddress (ip : IpAddress) (port : UInt16) :
    (ofAddress host (ip.toAddress host raw) port).size host = ip.sockaddrSize := by
  rw [BasicEndpoint.size, family_ofAddress, IpAddress.family_toAddress]
  cases ip <;> rfl

/-- The address of an IPv4 endpoint is found where it was stored. -/
theorem address_ofV4 (addr : AddressV4) (port : UInt16) :
    (ofAddress host (Address.ofV4 host raw addr) port).address host raw' =
      Address.ofV4 host raw' addr := by
  have hfamily : (ofAddress host (Address.ofV4 host raw addr) port).family host = PF_INET := by
    rw [family_ofAddress, Address.family_ofV4]
  have hsize : sockaddrSize host (Address.ofV4 host raw addr) = sizeofSockaddrIn := by
    rw [sockaddrSize, if_pos]
    simp [Address.isV4]
  have hread : sinAddr.offset + sinAddr.width ≤ sockaddrSize host (Address.ofV4 host raw addr) := by
    rw [hsize]
    decide
  rw [address_of_v4 hfamily, get_congr (read_ofAddress _ _ (.inr ⟨by decide, hread⟩)),
    Address.get_ofV4, Address.ofNetwork_v4]

/-- **An endpoint gives back what it was built from** if and only if it is an IPv4 endpoint: the
address of an IPv6 endpoint is reported as the unspecified IPv4 address. -/
theorem round_trip_iff (host : ByteOrder) (raw raw' : Memory) (ip : IpAddress) (port : UInt16) :
    GivesBack host raw' (ofAddress host (ip.toAddress host raw) port) ip port ↔
      ∃ addr, ip = .v4 addr := by
  have hfamily : (ip.toAddress host raw).family host = ip.protocol.family :=
    IpAddress.family_toAddress ip
  constructor
  · intro h
    cases ip with
    | v4 addr => exact ⟨addr, rfl⟩
    | v6 addr =>
      obtain ⟨hv6, -⟩ := h.address
      have hne : (ofAddress host (IpAddress.toAddress host raw (.v6 addr)) port).family host ≠
          PF_INET := by
        rw [family_ofAddress, hfamily]
        show PF_INET6 ≠ PF_INET
        decide
      rw [address_of_not_v4 hne] at hv6
      have h6 := of_decide_eq_true hv6
      rw [Address.family_default] at h6
      cases h6
  · rintro ⟨addr, rfl⟩
    refine ⟨?_, port_ofAddress port (.inl hfamily), protocol_ofAddress _ port, ?_,
      size_toAddress _ port⟩
    · rw [IpAddress.toAddress, address_ofV4]
      exact ⟨by simp [Address.isV4], Address.toV4_ofV4 addr⟩
    · rw [size_ofAddress, size_toAddress]

/-- The IPv6 address `2001:db8::1`. -/
def exampleV6 : AddressV6 :=
  ⟨fun i => if i = 0 then 0x20 else if i = 1 then 0x01 else if i = 2 then 0x0d
    else if i = 3 then 0xb8 else if i = 15 then 1 else 0⟩

theorem v6_not_given_back :
    ¬ ∀ (host : ByteOrder) (raw raw' : Memory) (ip : IpAddress) (port : UInt16),
      GivesBack host raw' (ofAddress host (ip.toAddress host raw) port) ip port := by
  intro h
  have hv6 := (h .little (fun _ => 0) (fun _ => 0) (.v6 exampleV6) 443).address.1
  have hv4 : (ofAddress .little (IpAddress.toAddress .little (fun _ => 0) (.v6 exampleV6)) 443
      ).address .little (fun _ => 0) = Address.default .little := by
    refine address_of_not_v4 ?_
    rw [family_ofAddress, IpAddress.family_toAddress]
    decide
  rw [hv4] at hv6
  revert hv6
  decide

end BasicEndpoint

end Net29
