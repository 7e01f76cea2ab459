import TinyNetwork.Lib.Bytes

/-!
# `class InetAddress` (src/net/InetAddress.h, src/net/InetAddress.cpp)

An IPv4 address and a port.  `inet_ntop` prints the four octets with dots between them.
-/

namespace TinyNetwork

open Bytes

/-- `sin_addr` and `sin_port`. -/
structure InetAddress where
  octets : UInt8 × UInt8 × UInt8 × UInt8
  port : UInt16
  deriving DecidableEq

namespace InetAddress

def toIp (addr : InetAddress) : Bytes :=
  let (a, b, c, d) := addr.octets
  decimal a.toNat ++ ascii "." ++ decimal b.toNat ++ ascii "." ++ decimal c.toNat ++ ascii "." ++
    decimal d.toNat

def toIpPort (addr : InetAddress) : Bytes :=
  addr.toIp ++ snprintf (32 - addr.toIp.length) (ascii ":" ++ decimal addr.port.toNat)

theorem length_toIp (addr : InetAddress) : addr.toIp.length ≤ 15 := by
  have hoctet : ∀ b : UInt8, (decimal b.toNat).length ≤ 3 := fun b =>
    length_decimal_le (by decide) (by have := b.toNat_lt; omega)
  obtain ⟨⟨a, b, c, d⟩, port⟩ := addr
  have hdot : (ascii ".").length = 1 := by decide
  simp only [toIp, List.length_append, hdot]
  have ha := hoctet a
  have hb := hoctet b
  have hc := hoctet c
  have hd := hoctet d
  omega

/-- Nothing is cut off. -/
theorem length_toIpPort (addr : InetAddress) : addr.toIpPort.length ≤ 21 := by
  have hport : (decimal addr.port.toNat).length ≤ 5 :=
    length_decimal_le (by decide) (by have := addr.port.toNat_lt; omega)
  have hcolon : (ascii ":").length = 1 := by decide
  have hip := addr.length_toIp
  rw [toIpPort, List.length_append, snprintf_of_lt] <;>
    rw [List.length_append, hcolon] <;> omega

end InetAddress

end TinyNetwork
