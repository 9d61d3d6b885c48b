/-
  Core/Remoting.lean --- the addresses of `core/remoting.rs`.

  `Host` and `Socket` carry the derived Rust orders: an enum compares its
  variants first, a struct compares its fields in declaration order.  Each order
  is the lexicographic order of a key, and it is lawful because the key is
  injective.
-/
import Std.Data.ExtTreeMap
import Std.Data.ExtTreeSet
import Mathlib.Logic.Function.Basic

set_option autoImplicit false

namespace AurumActors.Core

open Std

attribute [local instance] lexOrd

/-- Ordering by an injective key identifies only equal values. -/
theorem lawfulEqCmp_compareOn {α β : Type} [Ord β] [LawfulEqOrd β] {key : α → β}
    (hkey : Function.Injective key) : LawfulEqCmp (compareOn key) where
  compare_self := ReflOrd.compare_self (α := β)
  eq_of_compare h := hkey (LawfulEqOrd.eq_of_compare h)

/-! ## Hosts -/

/-- `std::net::IpAddr`, with the octets read as one big-endian number. -/
inductive IpAddr where
  | v4 (bits : BitVec 32)
  | v6 (bits : BitVec 128)
  deriving DecidableEq, Repr

/-- Every V4 address precedes every V6 address. -/
def IpAddr.key : IpAddr → Bool × Nat
  | .v4 bits => (false, bits.toNat)
  | .v6 bits => (true, bits.toNat)

theorem IpAddr.key_injective : Function.Injective IpAddr.key := by
  intro a b h
  cases a <;> cases b <;> simp only [key, Prod.mk.injEq, reduceCtorEq, false_and] at h
  · exact congrArg v4 (BitVec.eq_of_toNat_eq h.2)
  · exact congrArg v6 (BitVec.eq_of_toNat_eq h.2)

instance : Ord IpAddr := ⟨compareOn IpAddr.key⟩
instance : TransOrd IpAddr := inferInstanceAs (TransCmp (compareOn IpAddr.key))
instance : LawfulEqOrd IpAddr := lawfulEqCmp_compareOn IpAddr.key_injective

/-- The DNS name or IP address of the machine hosting a node. -/
inductive Host where
  | dns (name : String)
  | ip (addr : IpAddr)
  deriving DecidableEq, Repr

/-- Every DNS name precedes every IP address. -/
def Host.key : Host → Option IpAddr × String
  | .dns name => (none, name)
  | .ip addr => (some addr, "")

theorem Host.key_injective : Function.Injective Host.key := by
  intro a b h
  cases a <;> cases b <;>
    simp_all only [key, Prod.mk.injEq, reduceCtorEq, false_and, true_and, and_true,
      Option.some.injEq]

instance : Ord Host := ⟨compareOn Host.key⟩
instance : TransOrd Host := inferInstanceAs (TransCmp (compareOn Host.key))
instance : LawfulEqOrd Host := lawfulEqCmp_compareOn Host.key_injective

/-! ## Sockets -/

/-- The remote address of a node: its host, its UDP port and its TCP port. -/
structure Socket where
  host : Host
  udp : UInt16
  tcp : UInt16
  deriving DecidableEq, Repr

/-- The derived order compares `host`, then `udp`, then `tcp`. -/
def Socket.key (s : Socket) : Host × UInt16 × UInt16 := (s.host, s.udp, s.tcp)

theorem Socket.key_injective : Function.Injective Socket.key := by
  rintro ⟨h₁, u₁, t₁⟩ ⟨h₂, u₂, t₂⟩ h
  simp_all [key]

instance : Ord Socket := ⟨compareOn Socket.key⟩
instance : TransOrd Socket := inferInstanceAs (TransCmp (compareOn Socket.key))
instance : LawfulEqOrd Socket := lawfulEqCmp_compareOn Socket.key_injective

/-- The local host at one UDP port, an address for concrete runs. -/
def Socket.localhost (udp : UInt16) : Socket := ⟨.ip (.v4 0x7f000001#32), udp, 0⟩

end AurumActors.Core
