import LuxPolaris.BufferIntegers

/-!
# InetAddress

The text of an address and the names a server makes of it. A C string is the
list of its characters up to the terminator; `inet_ntop` is a parameter and,
like `snprintf`, writes into a buffer of a given size.
-/

set_option autoImplicit false

namespace Lux.Polaris
open Outcome

def AF_INET : ℕ := 2
def AF_INET6 : ℕ := 10
def INET_ADDRSTRLEN : ℕ := 16
def INET6_ADDRSTRLEN : ℕ := 46

/-- `sockaddr_in` or `sockaddr_in6`, as the family says. The port is in network
byte order. -/
structure InetAddress where
  family : ℕ
  addr : List Byte
  sin_port : BitVec 16

/-- What `snprintf` leaves in a buffer of `size` bytes. -/
def snprintf (size : ℕ) (text : List Char) : List Char := text.take (size-1)

def decimal (n : ℕ) : List Char := Nat.toDigits 10 n

theorem snprintf_of_lt {size : ℕ} {text : List Char} (h : text.length < size) :
    snprintf size text = text := List.take_of_length_le (by omega)

theorem snprintf_eq_iff {size : ℕ} {text : List Char} (hs : 0 < size) :
    snprintf size text = text ↔ text.length < size := by
  refine ⟨fun h => ?_, snprintf_of_lt⟩
  have hl := congrArg List.length h
  rw [snprintf, List.length_take] at hl
  omega

theorem decimal_injective {m n : ℕ} (h : decimal m = decimal n) : m = n := by
  rw [← Nat.ofDigitChars_ten_toDigits (n := m), ← Nat.ofDigitChars_ten_toDigits (n := n)]
  exact congrArg (Nat.ofDigitChars 10 · 0) h

theorem length_decimal {n k : ℕ} (hk : 0 < k) (h : n < 10^k) : (decimal n).length ≤ k :=
  (Nat.length_toDigits_le_iff (by decide) hk).mpr h

section Sockets
variable (inetNtop : ℕ → List Byte → List Char)

/-- `inet_ntop` into an empty string: a text that does not fit is refused. -/
def ntopInto (size family : ℕ) (addr : List Byte) : List Char :=
  if (inetNtop family addr).length < size then inetNtop family addr else []

def toIp (size : ℕ) (address : InetAddress) : Except Fault (List Char) :=
  if address.family = AF_INET then do
    assertThat (size ≥ INET_ADDRSTRLEN) "size >= INET_ADDRSTRLEN"
    return ntopInto inetNtop size AF_INET address.addr
  else if address.family = AF_INET6 then do
    assertThat (size ≥ INET6_ADDRSTRLEN) "size >= INET6_ADDRSTRLEN"
    return ntopInto inetNtop size AF_INET6 address.addr
  else .ok []

def toIpPort (size : ℕ) (address : InetAddress) : Except Fault (List Char) := do
  let ip ← toIp inetNtop size address
  let port := networkToHost16 address.sin_port
  assertThat (size > ip.length) "size > end"
  return ip ++ snprintf (size-ip.length) (':' :: decimal port.toNat)

namespace InetAddress

def toIpPort (address : InetAddress) : Except Fault (List Char) :=
  Lux.Polaris.toIpPort inetNtop 64 address

def ipText (address : InetAddress) : List Char :=
  if address.family = AF_INET ∨ address.family = AF_INET6 then
    inetNtop address.family address.addr
  else []

def ipPortText (address : InetAddress) : List Char :=
  address.ipText inetNtop ++ ':' :: decimal (networkToHost16 address.sin_port).toNat

end InetAddress

variable {inetNtop}

/-- Both families have texts that fit `INET6_ADDRSTRLEN`. -/
def ShortTexts (inetNtop : ℕ → List Byte → List Char) : Prop :=
  ∀ family addr, family = AF_INET ∨ family = AF_INET6 → (inetNtop family addr).length ≤ 45

theorem ntopInto_of (hn : ShortTexts inetNtop) {family : ℕ}
    (hf : family = AF_INET ∨ family = AF_INET6) (addr : List Byte) :
    ntopInto inetNtop 64 family addr = inetNtop family addr :=
  if_pos (Nat.lt_of_le_of_lt (hn family addr hf) (by decide))

theorem toIp_of (hn : ShortTexts inetNtop) (address : InetAddress) :
    toIp inetNtop 64 address = .ok (address.ipText inetNtop) := by
  unfold toIp InetAddress.ipText
  by_cases h4 : address.family = AF_INET
  · rw [if_pos h4, if_pos (Or.inl h4), assertThat_of (by decide), ok_bind,
      ntopInto_of hn (.inl rfl), h4]
    rfl
  by_cases h6 : address.family = AF_INET6
  · rw [if_neg h4, if_pos h6, if_pos (Or.inr h6), assertThat_of (by decide), ok_bind,
      ntopInto_of hn (.inr rfl), h6]
    rfl
  · rw [if_neg h4, if_neg h6, if_neg (by simp [h4, h6])]

theorem length_ipText (hn : ShortTexts inetNtop) (address : InetAddress) :
    (address.ipText inetNtop).length ≤ 45 := by
  unfold InetAddress.ipText
  split_ifs with hf
  · exact hn _ _ hf
  · exact Nat.zero_le _

theorem length_port (port : BitVec 16) : (decimal port.toNat).length ≤ 5 :=
  length_decimal (by decide) (Nat.lt_trans port.isLt (by decide))

theorem toIpPort_of (hn : ShortTexts inetNtop) (address : InetAddress) :
    address.toIpPort inetNtop = .ok (address.ipPortText inetNtop) := by
  have hip := length_ipText hn address
  have hport := length_port (networkToHost16 address.sin_port)
  have hfit : (':' :: decimal (networkToHost16 address.sin_port).toNat).length <
      64-(address.ipText inetNtop).length := by
    rw [List.length_cons]
    omega
  have hsize : 64 > (address.ipText inetNtop).length := by omega
  rw [InetAddress.toIpPort, toIpPort, toIp_of hn, ok_bind, assertThat_of hsize, ok_bind,
    snprintf_of_lt hfit]
  rfl

theorem length_ipPortText (hn : ShortTexts inetNtop) (address : InetAddress) :
    (address.ipPortText inetNtop).length ≤ 51 := by
  have hip := length_ipText hn address
  have hport := length_port (networkToHost16 address.sin_port)
  rw [InetAddress.ipPortText, List.length_append, List.length_cons]
  omega

end Sockets

section Names

/-- `"-%s#%d"` in full. -/
def connSuffix (ipPort : List Char) (connId : ℕ) : List Char :=
  '-' :: (ipPort ++ '#' :: decimal connId)

def connName (name ipPort : List Char) (connId : ℕ) : List Char :=
  name ++ snprintf 64 (connSuffix ipPort connId)

theorem connName_eq {name ipPort : List Char} {connId : ℕ} (hp : ipPort.length ≤ 51)
    (hc : connId < 2^31) : connName name ipPort connId = name ++ connSuffix ipPort connId := by
  have hid : (decimal connId).length ≤ 10 :=
    length_decimal (by decide) (Nat.lt_trans hc (by decide))
  have hfit : (connSuffix ipPort connId).length < 64 := by
    simp only [connSuffix, List.length_cons, List.length_append]
    omega
  rw [connName, snprintf_of_lt hfit]

theorem connName_injective {name ipPort : List Char} {i j : ℕ} (hp : ipPort.length ≤ 51)
    (hi : i < 2^31) (hj : j < 2^31) (h : connName name ipPort i = connName name ipPort j) :
    i = j := by
  rw [connName_eq hp hi, connName_eq hp hj] at h
  have hs := List.append_cancel_left h
  exact decimal_injective (List.cons.inj (List.append_cancel_left (List.cons.inj hs).2)).2

end Names

end Lux.Polaris
