import K3smApis.Decimal

/-!
# Addresses of Go's netip

`netip.ParseAddr`. An IPv4 address has one text, since a field with a leading zero is refused;
an IPv6 address may carry a zone and may end in the text of an IPv4 address. Why a text is
refused is left out.
-/
namespace K3smApis.GoNet
open Decimal

structure V4 where
  (a b c d : UInt8)
  deriving DecidableEq, Repr

structure V6 where
  bytes : List UInt8
  length_bytes : bytes.length = 16
  deriving DecidableEq, Repr

/-- `netip.Addr`, the zero value apart. -/
inductive Addr where
  | v4 (ip : V4)
  | v6 (ip : V6) (zone : GoString)
  deriving DecidableEq, Repr

/-- The loop of `parseIPv4Fields`: the fields before the current one, and its value and
number of digits so far. A dot with no digit before it follows a dot or starts the text. -/
def parseIPv4Fields (fields : List UInt8) (val digLen : ℕ) : GoString → Option (List UInt8)
  | [] => if fields.length < 3 then none else some (fields ++ [UInt8.ofNat val])
  | c :: s =>
    if isDigit c then
      if digLen = 1 ∧ val = 0 then none
      else if 255 < 10 * val + (c.toNat - 0x30) then none
      else parseIPv4Fields fields (10 * val + (c.toNat - 0x30)) (digLen + 1) s
    else if c = 0x2e then
      if digLen = 0 ∨ s = [] then none
      else if fields.length = 3 then none
      else parseIPv4Fields (fields ++ [UInt8.ofNat val]) 0 0 s
    else none

/-- Four fields as an address. -/
def V4.ofFields : List UInt8 → Option V4
  | [a, b, c, d] => some ⟨a, b, c, d⟩
  | _ => none

def parseIPv4 (s : GoString) : Option V4 := (parseIPv4Fields [] 0 0 s).bind V4.ofFields

/-- The value of a hexadecimal digit. -/
def hexValue (c : UInt8) : Option ℕ :=
  if 0x30 ≤ c ∧ c ≤ 0x39 then some (c.toNat - 0x30)
  else if 0x61 ≤ c ∧ c ≤ 0x66 then some (c.toNat - 0x61 + 10)
  else if 0x41 ≤ c ∧ c ≤ 0x46 then some (c.toNat - 0x41 + 10)
  else none

/-- A group of at most four digits, high byte first. -/
def groupBytes (digits : GoString) : List UInt8 :=
  let n := digits.foldl (fun n c => 16 * n + (hexValue c).getD 0) 0
  [UInt8.ofNat (n / 256), UInt8.ofNat n]

/-- The loop of `parseIPv6` with room for `n` more groups: the bytes read so far, where the
ellipsis stood among them, and the text left. -/
def parseIPv6Groups : (n : ℕ) → (ip : List UInt8) → (ellipsis : Option ℕ) → GoString →
    Option (List UInt8 × Option ℕ)
  | 0, ip, ellipsis, s => if s = [] then some (ip, ellipsis) else none
  | n + 1, ip, ellipsis, s =>
    let digits := s.takeWhile (fun c => (hexValue c).isSome)
    let rest := s.drop digits.length
    if digits = [] ∨ 4 < digits.length then none
    else if rest.head? = some 0x2e then
      -- The text of an IPv4 address ends the text.
      if ellipsis = none ∧ ip.length ≠ 12 ∨ 16 < ip.length + 4 then none
      else (parseIPv4Fields [] 0 0 s).map (fun fields => (ip ++ fields, ellipsis))
    else
      let ip := ip ++ groupBytes digits
      if rest = [] then some (ip, ellipsis)
      else if rest.head? ≠ some 0x3a ∨ rest.length = 1 then none
      else if rest.tail.head? ≠ some 0x3a then parseIPv6Groups n ip ellipsis rest.tail
      else if ellipsis.isSome then none
      else if rest.drop 2 = [] then some (ip, some ip.length)
      else parseIPv6Groups n ip (some ip.length) (rest.drop 2)

/-- Zeros for the ellipsis, which stands for one group at least. -/
def expandEllipsis (ip : List UInt8) : Option ℕ → Option (List UInt8)
  | none => if ip.length < 16 then none else some ip
  | some at_ =>
    if ip.length < 16 then
      some (ip.take at_ ++ List.replicate (16 - ip.length) 0 ++ ip.drop at_)
    else none

def V6.ofBytes (bytes : List UInt8) : Option V6 :=
  if h : bytes.length = 16 then some ⟨bytes, h⟩ else none

def parseIPv6 (s : GoString) : Option Addr :=
  let body := s.takeWhile (· ≠ 0x25)
  let zone := s.drop (body.length + 1)
  if body.length + 1 = s.length then none
  else
    let leading := body.take 2 = [0x3a, 0x3a]
    let groups := if leading then body.drop 2 else body
    let read := if leading ∧ groups = [] then some ([], some 0)
      else parseIPv6Groups 8 [] (if leading then some 0 else none) groups
    (read.bind fun r => (expandEllipsis r.1 r.2).bind V6.ofBytes).map (Addr.v6 · zone)

/-- The first dot, colon or percent sign tells the kind of the address. -/
def parseAddr (s : GoString) : Option Addr :=
  match s.find? (fun c => c = 0x2e ∨ c = 0x3a ∨ c = 0x25) with
  | some c => if c = 0x2e then (parseIPv4 s).map .v4 else if c = 0x3a then parseIPv6 s else none
  | none => none

def Addr.zone : Addr → GoString
  | .v4 _ => []
  | .v6 _ zone => zone

end K3smApis.GoNet
