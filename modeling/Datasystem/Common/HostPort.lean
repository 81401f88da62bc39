import Datasystem.Common.Bytes
import Datasystem.Common.Status

/-! Endpoint texts. `HostPort` parses `ipv4:port`, `localhost:port` and
`[ipv6]:port` and prints them again; an address is canonical when printing the
parsed endpoint gives the same text. The validator's regular expressions are
kept as lists of alternatives, each a sequence of digit classes. -/

namespace Datasystem.Common

open List

/-- Inclusive bounds on one byte of a pattern. -/
abbrev ByteClass := Byte × Byte

def digitClass (lo hi : Char) : ByteClass := (Fin.ofNat 256 lo.toNat, Fin.ofNat 256 hi.toNat)

/-- `[0-9]` -/
def anyDigit : ByteClass := digitClass '0' '9'

def matchesPattern : List ByteClass → Bytes → Bool
  | [], [] => true
  | c :: cs, b :: bs => c.1 ≤ b && b ≤ c.2 && matchesPattern cs bs
  | _, _ => false

/-- Alternatives of the form `head tail{lo,hi}`. -/
def repeated (head : ByteClass) (tail : ByteClass) (counts : List Nat) : List (List ByteClass) :=
  counts.map fun n => head :: List.replicate n tail

def portPatterns : List (List ByteClass) :=
  [[digitClass '6' '6', digitClass '5' '5', digitClass '5' '5', digitClass '3' '3',
      digitClass '0' '5'],
    [digitClass '6' '6', digitClass '5' '5', digitClass '5' '5', digitClass '0' '2', anyDigit],
    [digitClass '6' '6', digitClass '5' '5', digitClass '0' '4', anyDigit, anyDigit],
    [digitClass '6' '6', digitClass '0' '4', anyDigit, anyDigit, anyDigit]] ++
  repeated (digitClass '1' '5') anyDigit [4] ++
  repeated (digitClass '1' '5') (digitClass '0' '5') [0, 1, 2, 3, 4] ++
  repeated (digitClass '1' '9') anyDigit [0, 1, 2, 3]

def octetPatterns : List (List ByteClass) :=
  [[digitClass '2' '2', digitClass '5' '5', digitClass '0' '5'],
    [digitClass '2' '2', digitClass '0' '4', anyDigit],
    [digitClass '1' '1', anyDigit, anyDigit],
    [anyDigit],
    [anyDigit, anyDigit]]

variable (value : Bytes)

def isInPortRange : Bool := portPatterns.any (matchesPattern · value)

/-- Split at the last `:`, which `find_last_of` returns; `none` when there is none. -/
def splitLastColon : Option (Bytes × Bytes) :=
  match value.reverse.span (· ≠ Fin.ofNat 256 ':'.toNat) with
  | (_, []) => none
  | (port, _ :: host) => some (host.reverse, port.reverse)

def isValidIPv4HostPortString : Bool :=
  value.isEmpty ||
    match splitLastColon value with
    | none => false
    | some (host, port) =>
      isInPortRange port &&
        (host == ascii "localhost" ||
          let octets := host.splitOn (Fin.ofNat 256 '.'.toNat)
          octets.length == 4 && octets.all fun o => octetPatterns.any (matchesPattern · o))

def isValidIPv6HostPortString : Bool :=
  value.head? == some (Fin.ofNat 256 '['.toNat) &&
    match splitLastColon value with
    | none => false
    | some (host, port) =>
      host.getLast? == some (Fin.ofNat 256 ']'.toNat) &&
        !((value.tail.take 4 == ascii "fe80" || value.tail.take 4 == ascii "FE80") &&
          !value.contains (Fin.ofNat 256 '%'.toNat)) &&
        isInPortRange port

def validateHostPortString : Bool :=
  if value.head? ≠ some (Fin.ofNat 256 '['.toNat) then isValidIPv4HostPortString value
  else isValidIPv6HostPortString value

structure HostPort where
  host : Bytes
  port : Int
  isIPv6 : Bool
deriving DecidableEq

/-- `std::stoi` of a text of digits. -/
def stoi (digits : Bytes) : Nat := digits.foldl (fun n d => n * 10 + (d.val - '0'.toNat)) 0

def HostPort.parseString (str : Bytes) : Result HostPort := do
  checkFailReturnStatus (validateHostPortString str) .kInvalid "Invalid IP address and port parsed"
  match splitLastColon str with
  | none => pure ⟨str, -1, false⟩
  | some (host, port) =>
    if str.head? ≠ some (Fin.ofNat 256 '['.toNat) then pure ⟨host, stoi port, false⟩
    else pure ⟨(host.drop 1).dropLast, stoi port, true⟩

def HostPort.toString (endpoint : HostPort) : Bytes :=
  if endpoint.host.isEmpty && endpoint.port == -1 then []
  else
    let port := decimal endpoint.port.toNat
    if !endpoint.isIPv6 then endpoint.host ++ ascii ":" ++ port
    else ascii "[" ++ endpoint.host ++ ascii "]:" ++ port

/-- Parsing succeeds and prints back as the same text. -/
def isCanonicalEndpoint (address : Bytes) : Bool :=
  match HostPort.parseString address with
  | .ok endpoint => endpoint.toString == address
  | .error _ => false

/-! ## Ports of four digits -/

theorem stoi_decimal (n : Nat) : stoi (decimal n) = n := by
  induction n using Nat.strong_induction_on with
  | h n ih =>
    have hdigit : ∀ k < 10, stoi (decimal k) = k := by decide
    by_cases hlt : n < 10
    · exact hdigit n hlt
    · have hlast :
          ∀ k < 10, (Fin.ofNat 256 (Nat.digitChar k).toNat : Byte).val - '0'.toNat = k := by
        decide
      have hsnoc : ∀ digits d, stoi (digits ++ [d]) = stoi digits * 10 + (d.val - '0'.toNat) := by
        simp [stoi]
      rw [decimal, Nat.toDigits_of_base_le (by decide) (by omega), map_append, ← decimal,
        map_singleton, hsnoc, ih (n / 10) (by omega),
        hlast (n % 10) (by omega)]
      omega

theorem decimal_injective : Function.Injective decimal := by
  intro m n h
  rw [← stoi_decimal m, h, stoi_decimal]

theorem length_decimal_four {p : Nat} (hp : 1000 ≤ p ∧ p < 10000) : (decimal p).length = 4 := by
  have hle : (decimal p).length ≤ 4 := length_decimal_le (by decide) hp.2
  have hgt : ¬(decimal p).length ≤ 3 := by
    rw [decimal, length_map, Nat.length_toDigits_le_iff (by decide) (by decide)]
    omega
  omega

theorem isInPortRange_four {p : Nat} (hp : 1000 ≤ p ∧ p < 10000) : isInPortRange (decimal p) := by
  have hhead := head_decimal (show 0 < p by omega)
  have hmem : ∀ b ∈ decimal p, 48 ≤ b.val ∧ b.val ≤ 57 := fun b hb => mem_decimal hb
  have hlen := length_decimal_four hp
  match hdigits : decimal p, hlen with
  | [d0, d1, d2, d3], _ =>
    rw [hdigits] at hhead hmem
    have hpattern : matchesPattern [digitClass '1' '9', anyDigit, anyDigit, anyDigit]
        [d0, d1, d2, d3] := by
      simp only [forall_mem_cons, head?_cons, Option.any_some, Bool.and_eq_true,
        decide_eq_true_eq] at hhead hmem
      simp only [matchesPattern, digitClass, anyDigit, Bool.and_eq_true, decide_eq_true_eq,
        Fin.le_def]
      exact ⟨hhead, hmem.2.1, hmem.2.2.1, hmem.2.2.2.1, trivial⟩
    exact any_eq_true.mpr ⟨_, by decide, hpattern⟩

theorem splitLastColon_append {host port} (h : ∀ b ∈ port, b ≠ Fin.ofNat 256 ':'.toNat) :
    splitLastColon (host ++ Fin.ofNat 256 ':'.toNat :: port) = some (host, port) := by
  have hne : ∀ b ∈ port.reverse, decide (b ≠ Fin.ofNat 256 ':'.toNat) = true :=
    fun b hb => decide_eq_true (h b (mem_reverse.mp hb))
  have hrev : (host ++ Fin.ofNat 256 ':'.toNat :: port).reverse =
      port.reverse ++ Fin.ofNat 256 ':'.toNat :: host.reverse := by simp
  rw [splitLastColon, hrev, span_eq_takeWhile_dropWhile,
    takeWhile_append_of_pos hne, dropWhile_append_of_pos hne]
  simp

/-- A host that goes with one port of four digits goes with all of them. -/
theorem isCanonicalEndpoint_port {host} {p : Nat} (hhost : (host == ascii "localhost" ||
      let octets := host.splitOn (Fin.ofNat 256 '.'.toNat)
      octets.length == 4 && octets.all fun o => octetPatterns.any (matchesPattern · o)) = true)
    (hhead : host.head?.any (· ≠ Fin.ofNat 256 '['.toNat)) (hp : 1000 ≤ p ∧ p < 10000) :
    isCanonicalEndpoint (host ++ Fin.ofNat 256 ':'.toNat :: decimal p) := by
  have hsplit : splitLastColon (host ++ Fin.ofNat 256 ':'.toNat :: decimal p) =
      some (host, decimal p) := by
    refine splitLastColon_append fun b hb heq => ?_
    have hdigit := (mem_decimal hb).2
    rw [heq] at hdigit
    exact absurd hdigit (by decide)
  have hfirst : (host ++ Fin.ofNat 256 ':'.toNat :: decimal p).head? ≠
      some (Fin.ofNat 256 '['.toNat) := by
    cases host with
    | nil => cases hhead
    | cons => simpa using hhead
  have hvalid : validateHostPortString (host ++ Fin.ofNat 256 ':'.toNat :: decimal p) := by
    rw [validateHostPortString, if_pos hfirst, isValidIPv4HostPortString, hsplit]
    simp only [isInPortRange_four hp, Bool.true_and, hhost, Bool.or_true]
  have hparse : HostPort.parseString (host ++ Fin.ofNat 256 ':'.toNat :: decimal p) =
      .ok ⟨host, p, false⟩ := by
    rw [HostPort.parseString, check_of hvalid, hsplit]
    simp only [if_pos hfirst, stoi_decimal]
    rfl
  have hhostText : host.isEmpty = false := by
    cases host with
    | nil => cases hhead
    | cons => rfl
  rw [isCanonicalEndpoint, hparse]
  simp [HostPort.toString, hhostText, ascii]

example : isCanonicalEndpoint (ascii "10.0.0.1:8080") := by decide
example : isCanonicalEndpoint (ascii "[fd00::1]:8080") := by decide
example : ¬isCanonicalEndpoint (ascii "10.0.0.1:08080") := by decide
example : ¬isCanonicalEndpoint (ascii "[fe80::1]:8080") := by decide
example : ¬isCanonicalEndpoint (ascii "256.0.0.1:8080") := by decide

end Datasystem.Common
