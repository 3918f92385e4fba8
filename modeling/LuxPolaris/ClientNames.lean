import LuxPolaris.InetAddress

/-!
# The names of a client's connections

`TCPClient::newConnection` formats the peer's address and port and the id into
32 bytes, where the server has 64. What is left for the id depends on the
length of the address; an id with more digits loses its last ones.
-/

set_option autoImplicit false

namespace Lux.Polaris.ClientNames
open Outcome

def digits (n : ℕ) : ℕ := (decimal n).length

section Decimal

theorem decimal_of_ten_le {n : ℕ} (h : 10 ≤ n) :
    decimal n = decimal (n/10) ++ [Nat.digitChar (n%10)] :=
  Nat.toDigits_of_base_le (by decide) h

theorem digits_pos (n : ℕ) : 0 < digits n := Nat.length_toDigits_pos

theorem digits_le_iff {n k : ℕ} (hk : 0 < k) : digits n ≤ k ↔ n < 10^k :=
  Nat.length_toDigits_le_iff (by decide) hk

theorem digits_div_ten {n : ℕ} (h : 10 ≤ n) : digits n = digits (n/10)+1 := by
  rw [digits, decimal_of_ten_le h, List.length_append]
  rfl

theorem take_decimal (n k : ℕ) (hk : 0 < k) (h : k ≤ digits n) :
    (decimal n).take k = decimal (n/10^(digits n-k)) := by
  induction n using Nat.strong_induction_on with
  | _ n ih =>
    by_cases hd : digits n = k
    · rw [List.take_of_length_le (Nat.le_of_eq hd), hd, Nat.sub_self, pow_zero, Nat.div_one]
    · have hten : 10 ≤ n := by
        by_contra hn
        have := (digits_le_iff (n := n) (k := 1) (by decide)).mpr (by omega)
        omega
      have hlen := digits_div_ten hten
      have hle : k ≤ (decimal (n/10)).length := by
        change k ≤ digits (n/10)
        omega
      have hexp : digits n-k = digits (n/10)-k+1 := by
        have : k ≤ digits (n/10) := hle
        omega
      rw [decimal_of_ten_le hten, List.take_append_of_le_length hle,
        ih (n/10) (Nat.div_lt_self (by omega) (by decide)) hle, hexp, pow_succ',
        Nat.div_div_eq_div_mul]

/-- Both numbers have at least `k` digits and the first `k` are the same. -/
def CutAlike (k i j : ℕ) : Prop :=
  k ≤ digits i ∧ k ≤ digits j ∧ i/10^(digits i-k) = j/10^(digits j-k)

instance (k i j : ℕ) : Decidable (CutAlike k i j) := inferInstanceAs (Decidable (_ ∧ _ ∧ _))

theorem le_digits_of_take {k i j : ℕ} (hij : i ≠ j)
    (h : (decimal i).take k = (decimal j).take k) : k ≤ digits i := by
  by_contra hk
  have hi : (decimal i).take k = decimal i := List.take_of_length_le (by
    change digits i ≤ k
    omega)
  have hlen : digits i = min k (digits j) := by
    have hl := congrArg List.length h
    rwa [hi, List.length_take] at hl
  have hj : (decimal j).take k = decimal j := List.take_of_length_le (by
    change digits j ≤ k
    omega)
  rw [hi, hj] at h
  exact hij (decimal_injective h)

theorem take_decimal_eq_iff {k i j : ℕ} (hij : i ≠ j) :
    (decimal i).take k = (decimal j).take k ↔ CutAlike k i j := by
  constructor
  · intro h
    have hi := le_digits_of_take hij h
    have hj := le_digits_of_take hij.symm h.symm
    refine ⟨hi, hj, ?_⟩
    rcases Nat.eq_zero_or_pos k with rfl | hk
    · rw [Nat.sub_zero, Nat.sub_zero,
        Nat.div_eq_of_lt ((digits_le_iff (digits_pos i)).mp (Nat.le_refl _)),
        Nat.div_eq_of_lt ((digits_le_iff (digits_pos j)).mp (Nat.le_refl _))]
    · rw [take_decimal i k hk hi, take_decimal j k hk hj] at h
      exact decimal_injective h
  · rintro ⟨hi, hj, h⟩
    rcases Nat.eq_zero_or_pos k with rfl | hk
    · rfl
    · rw [take_decimal i k hk hi, take_decimal j k hk hj, h]

end Decimal

section Format

/-- `":%s#%d"` in full. -/
def clientSuffix (ipPort : List Char) (connId : ℕ) : List Char :=
  ':' :: (ipPort ++ '#' :: decimal connId)

def clientConnName (name ipPort : List Char) (connId : ℕ) : List Char :=
  name ++ snprintf 32 (clientSuffix ipPort connId)

/-- What the 32 bytes leave for the id, behind the colon, the peer and the
number sign and before the terminator. -/
def roomForId (ipPort : List Char) : ℕ := 29-ipPort.length

theorem snprintf_clientSuffix (ipPort : List Char) (connId : ℕ) :
    snprintf 32 (clientSuffix ipPort connId) =
      if ipPort.length < 30 then
        ':' :: (ipPort ++ '#' :: (decimal connId).take (roomForId ipPort))
      else ':' :: ipPort.take 30 := by
  unfold snprintf clientSuffix
  rw [show 32-1 = 30+1 from rfl, List.take_succ_cons, List.take_append]
  split_ifs with h
  · have hroom : 30-ipPort.length = roomForId ipPort+1 := by
      unfold roomForId
      omega
    rw [hroom, List.take_succ_cons, List.take_of_length_le (Nat.le_of_lt h)]
  · rw [Nat.sub_eq_zero_of_le (Nat.le_of_not_lt h), List.take_zero, List.append_nil]

theorem clientConnName_eq_iff {name ipPort : List Char} {i j : ℕ} (hij : i ≠ j) :
    clientConnName name ipPort i = clientConnName name ipPort j ↔
      CutAlike (roomForId ipPort) i j := by
  unfold clientConnName
  rw [List.append_right_inj, snprintf_clientSuffix, snprintf_clientSuffix,
    ← take_decimal_eq_iff hij]
  split_ifs with h
  · rw [List.cons_inj_right, List.append_right_inj, List.cons_inj_right]
  · have hroom : roomForId ipPort = 0 := by
      unfold roomForId
      omega
    rw [hroom]
    exact iff_of_true rfl rfl

theorem clientConnName_full_iff (name ipPort : List Char) (connId : ℕ) :
    clientConnName name ipPort connId = name ++ clientSuffix ipPort connId ↔
      ipPort.length+digits connId ≤ 29 := by
  unfold clientConnName
  rw [List.append_right_inj, snprintf_eq_iff (by decide)]
  simp only [clientSuffix, List.length_cons, List.length_append]
  change ipPort.length+(digits connId+1)+1 < 32 ↔ _
  omega

/-- For a peer whose address and port take 19 characters at most no id of type
`int` is cut off; for every longer one two ids have the same name. -/
theorem peer_names_distinct_iff (name ipPort : List Char) :
    (∀ i j, 1 ≤ i → i < 2^31 → 1 ≤ j → j < 2^31 → i ≠ j →
      clientConnName name ipPort i ≠ clientConnName name ipPort j) ↔ ipPort.length ≤ 19 := by
  constructor
  · intro h
    by_contra hlong
    have hroom : roomForId ipPort < 10 := by
      unfold roomForId
      omega
    have hcut : ∀ k < 10, CutAlike k (10^9) (10^9+1) := by decide +kernel
    exact h (10^9) (10^9+1) (by decide) (by decide) (by decide) (by decide) (by decide)
      ((clientConnName_eq_iff (by decide)).mpr (hcut _ hroom))
  · intro hshort i j _ hi _ hj hij h
    obtain ⟨hdi, hdj, hq⟩ := (clientConnName_eq_iff hij).mp h
    have hi10 : digits i ≤ 10 := (digits_le_iff (by decide)).mpr (Nat.lt_trans hi (by decide))
    have hj10 : digits j ≤ 10 := (digits_le_iff (by decide)).mpr (Nat.lt_trans hj (by decide))
    unfold roomForId at hdi hdj hq
    rw [Nat.sub_eq_zero_of_le (by omega), Nat.sub_eq_zero_of_le (by omega), pow_zero,
      Nat.div_one, Nat.div_one] at hq
    exact hij hq

end Format

structure Connection where
  connId : ℕ
  peerAddr : InetAddress
  name : List Char

structure Client where
  name : List Char
  nextConnId : ℕ
  connections : List Connection

def construct (name : List Char) : Client := ⟨name, 1, []⟩

def newConnection (inetNtop : ℕ → List Byte → List Char) (c : Client) (peerAddr : InetAddress) :
    Except Fault Client := do
  let ipPort ← peerAddr.toIpPort inetNtop
  let conn : Connection := ⟨c.nextConnId, peerAddr, clientConnName c.name ipPort c.nextConnId⟩
  return { c with nextConnId := c.nextConnId+1, connections := c.connections ++ [conn] }

section Runs
variable {inetNtop : ℕ → List Byte → List Char}

structure Named (inetNtop : ℕ → List Byte → List Char) (name : List Char) (c : Client) : Prop where
  name_eq : c.name = name
  next_eq : c.nextConnId = c.connections.length+1
  each : ∀ m p, c.connections[m]? = some p →
    p.connId = m+1 ∧ p.name = clientConnName name (p.peerAddr.ipPortText inetNtop) p.connId

theorem construct_named (name : List Char) : Named inetNtop name (construct name) :=
  ⟨rfl, rfl, fun _ _ h => nomatch h⟩

theorem newConnection_named (hn : ShortTexts inetNtop) {name : List Char} {c : Client}
    (hc : Named inetNtop name c) (peerAddr : InetAddress) :
    ∃ c', newConnection inetNtop c peerAddr = .ok c' ∧ Named inetNtop name c' := by
  refine ⟨{ c with
    nextConnId := c.nextConnId+1
    connections := c.connections ++ [⟨c.nextConnId, peerAddr,
      clientConnName c.name (peerAddr.ipPortText inetNtop) c.nextConnId⟩] }, ?_, ?_⟩
  · rw [newConnection, toIpPort_of hn]
    rfl
  · refine ⟨hc.name_eq, ?_, fun m p h => ?_⟩
    · rw [hc.next_eq, List.length_append]
      rfl
    · dsimp only at h
      rcases Nat.lt_trichotomy m c.connections.length with hm | rfl | hm
      · rw [List.getElem?_append_left hm] at h
        exact hc.each m p h
      · rw [List.getElem?_concat_length, Option.some.injEq] at h
        subst h
        exact ⟨hc.next_eq, by rw [hc.name_eq]⟩
      · have hlen : (c.connections ++ [(⟨c.nextConnId, peerAddr, clientConnName c.name
            (peerAddr.ipPortText inetNtop) c.nextConnId⟩ : Connection)]).length ≤ m := by
          rw [List.length_append]
          exact hm
        rw [List.getElem?_eq_none hlen] at h
        cases h

theorem run_named (hn : ShortTexts inetNtop) (name : List Char) (peers : List InetAddress) :
    ∃ t, run (newConnection inetNtop) (construct name) peers = .ok t ∧ Named inetNtop name t :=
  run_succeeds (fun _ _ => True) (fun _ a hc _ => newConnection_named hn hc a) peers _
    (construct_named name) (admitted_true _ _)

theorem shortTexts_of (h4 : ∀ addr, (inetNtop AF_INET addr).length ≤ 15)
    (h6 : ∀ addr, (inetNtop AF_INET6 addr).length ≤ 39) : ShortTexts inetNtop := by
  rintro family addr (rfl | rfl)
  · exact (h4 addr).trans (by decide)
  · exact (h6 addr).trans (by decide)

/-- For every client, whatever peers it has connected to, and every two of its
connections to one peer: their names differ exactly unless both ids are cut off
to the same digits. An id is in the name in full exactly if it and the peer's
address and port together take at most 29 characters. -/
theorem client_names_distinct_iff (inetNtop : ℕ → List Byte → List Char)
    (h4 : ∀ addr, (inetNtop AF_INET addr).length ≤ 15)
    (h6 : ∀ addr, (inetNtop AF_INET6 addr).length ≤ 39) (name : List Char)
    (peers : List InetAddress) (t : Client)
    (hr : run (newConnection inetNtop) (construct name) peers = .ok t) (m n : ℕ)
    (p q : Connection) (hp : t.connections[m]? = some p) (hq : t.connections[n]? = some q)
    (hmn : m ≠ n) (hpeer : p.peerAddr = q.peerAddr) :
    (p.name ≠ q.name ↔
      ¬CutAlike (roomForId (p.peerAddr.ipPortText inetNtop)) p.connId q.connId) ∧
    (p.name = name ++ clientSuffix (p.peerAddr.ipPortText inetNtop) p.connId ↔
      (p.peerAddr.ipPortText inetNtop).length+digits p.connId ≤ 29) := by
  obtain ⟨t', hr', ht⟩ := run_named (shortTexts_of h4 h6) name peers
  cases hr.symm.trans hr'
  obtain ⟨hpi, hpn⟩ := ht.each m p hp
  obtain ⟨hqi, hqn⟩ := ht.each n q hq
  have hids : p.connId ≠ q.connId := by omega
  constructor
  · rw [hpn, hqn, ← hpeer]
    exact not_congr (clientConnName_eq_iff hids)
  · rw [hpn]
    exact clientConnName_full_iff _ _ _

def groups : List Byte → List (List Char)
  | a::b::rest => Nat.toDigits 16 (256*a.toNat+b.toNat) :: groups rest
  | _ => []

def addressText (family : ℕ) (addr : List Byte) : List Char :=
  if family = AF_INET then (['.'].intercalate (addr.map (fun b => decimal b.toNat))).take 15
  else ([':'].intercalate (groups addr)).take 39

theorem length_addressText (addr : List Byte) : (addressText AF_INET addr).length ≤ 15 ∧
    (addressText AF_INET6 addr).length ≤ 39 :=
  ⟨List.length_take_le _ _, List.length_take_le _ _⟩

theorem client_names_distinct_loopback : ∃ t p q,
    run (newConnection addressText) (construct ['c'])
      [⟨AF_INET, [127, 0, 0, 1], 0x901f⟩, ⟨AF_INET, [127, 0, 0, 1], 0x901f⟩] = .ok t ∧
    t.connections = [p, q] ∧ p.name ≠ q.name ∧
    p.name = ['c'] ++ clientSuffix ['1', '2', '7', '.', '0', '.', '0', '.', '1', ':',
      '8', '0', '8', '0'] 1 := by
  have hiff := client_names_distinct_iff addressText (fun addr => (length_addressText addr).1)
    (fun addr => (length_addressText addr).2) ['c']
    [⟨AF_INET, [127, 0, 0, 1], 0x901f⟩, ⟨AF_INET, [127, 0, 0, 1], 0x901f⟩] _ rfl 0 1 _ _ rfl rfl
    (by decide) rfl
  exact ⟨_, _, _, rfl, rfl, hiff.1.mpr (by decide +kernel), hiff.2.mpr (by decide +kernel)⟩

def longestPeer : InetAddress := ⟨AF_INET6, List.replicate 16 255, 0xffff⟩

theorem client_names_cut : ¬∀ (inetNtop : ℕ → List Byte → List Char),
    (∀ addr, (inetNtop AF_INET addr).length ≤ 15) →
    (∀ addr, (inetNtop AF_INET6 addr).length ≤ 39) →
    ∀ (name : List Char) (peers : List InetAddress) (t : Client),
      run (newConnection inetNtop) (construct name) peers = .ok t →
      ∀ (m n : ℕ) (p q : Connection), t.connections[m]? = some p → t.connections[n]? = some q →
        m ≠ n → p.peerAddr = q.peerAddr → p.connId < 2^31 → q.connId < 2^31 → p.name ≠ q.name := by
  intro h
  refine h addressText (fun addr => (length_addressText addr).1)
    (fun addr => (length_addressText addr).2) ['c'] [longestPeer, longestPeer] _ rfl 0 1 _ _ rfl rfl
    (by decide) rfl (by decide) (by decide) ?_
  decide +kernel

end Runs

end Lux.Polaris.ClientNames
