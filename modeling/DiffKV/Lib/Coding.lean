/-
Variable-length and fixed-width integers, and length-prefixed byte
strings.

`Coding` is the contract a pair of varint codecs offers its clients:
reading back what was written returns the value and leaves what
follows untouched, and a successful read consumes at least one byte.
Nothing else about the encoding is observable through it, so a client
proved against `Coding` holds for every such codec.

The length-prefixed string is defined over the contract: its length
goes out as a 32-bit varint, so the round trip carries the bound
`length < 2 ^ 32`.

`base128` inhabits the contract: seven bits to a byte, lowest first,
high bit set on every byte but the last.

Fixed-width integers are little-endian and defined outright.
-/
import Mathlib.Algebra.Group.Nat.Defs
import Mathlib.Tactic.Common

namespace Lib

open List

/-- A string of bytes. -/
abbrev Bytes := List UInt8

/-- A pair of varint codecs, 32-bit and 64-bit, with the laws clients
rely on. -/
structure Coding where
  putVarint32 : UInt32 → Bytes
  getVarint32 : Bytes → Option (UInt32 × Bytes)
  putVarint64 : UInt64 → Bytes
  getVarint64 : Bytes → Option (UInt64 × Bytes)
  get_put32 : ∀ v rest, getVarint32 (putVarint32 v ++ rest) = some (v, rest)
  get_put64 : ∀ v rest, getVarint64 (putVarint64 v ++ rest) = some (v, rest)
  get32_shortens : ∀ {src v rest}, getVarint32 src = some (v, rest) → rest.length < src.length
  get64_shortens : ∀ {src v rest}, getVarint64 src = some (v, rest) → rest.length < src.length

namespace Coding

variable (C : Coding) {s src rest : Bytes}

attribute [simp] get_put32 get_put64

/-- A written 32-bit varint is not empty. -/
theorem put32_length_pos (v : UInt32) : 0 < (C.putVarint32 v).length := by
  have h := C.get32_shortens (C.get_put32 v [])
  simpa using h

/-- A 64-bit varint is read off at most `n` bytes. -/
def Reads64Within (n : Nat) : Prop :=
  ∀ {src v rest}, C.getVarint64 src = some (v, rest) → src.length ≤ rest.length + n

-- ==== length-prefixed strings

/-- A byte string behind its length. -/
def putLengthPrefixedSlice (s : Bytes) : Bytes :=
  C.putVarint32 (UInt32.ofNat s.length) ++ s

/-- Read a length and that many bytes; `none` if the input is too
short. -/
def getLengthPrefixedSlice (src : Bytes) : Option (Bytes × Bytes) :=
  match C.getVarint32 src with
  | none => none
  | some (len, rest) =>
    if len.toNat ≤ rest.length then
      some (rest.take len.toNat, rest.drop len.toNat)
    else none

/-- The string comes back as long as its length fits the prefix. -/
theorem getLengthPrefixed_put (hs : s.length < 2 ^ 32) (rest : Bytes) :
    C.getLengthPrefixedSlice (C.putLengthPrefixedSlice s ++ rest) = some (s, rest) := by
  have hlen : (UInt32.ofNat s.length).toNat = s.length := by
    exact Nat.mod_eq_of_lt hs
  unfold getLengthPrefixedSlice putLengthPrefixedSlice
  rw [append_assoc, C.get_put32]
  simp only [hlen, length_append, Nat.le_add_right, if_true, take_left, drop_left]

section

variable (h : C.getLengthPrefixedSlice src = some (s, rest))
include h

/-- What a length-prefixed read has read. -/
theorem getLengthPrefixed_inv :
    ∃ len tail, C.getVarint32 src = some (len, tail) ∧ len.toNat ≤ tail.length
      ∧ s = tail.take len.toNat ∧ rest = tail.drop len.toNat := by
  unfold getLengthPrefixedSlice at h
  cases hg : C.getVarint32 src with
  | none => rw [hg] at h; cases h
  | some p =>
    obtain ⟨len, tail⟩ := p
    rw [hg] at h
    simp only at h
    split at h
    case isFalse => cases h
    case isTrue hle =>
      simp only [Option.some.injEq, Prod.mk.injEq] at h
      exact ⟨len, tail, rfl, hle, h.1.symm, h.2.symm⟩

/-- What comes out of a length-prefixed read has a length that fits the
prefix. -/
theorem getLengthPrefixed_length : s.length < 2 ^ 32 := by
  obtain ⟨len, tail, -, hle, rfl, -⟩ := C.getLengthPrefixed_inv h
  rw [length_take, Nat.min_eq_left hle]
  exact len.toNat_lt

/-- A length-prefixed read consumes its prefix. -/
theorem getLengthPrefixed_shortens : rest.length < src.length := by
  obtain ⟨len, tail, hg, -, -, rfl⟩ := C.getLengthPrefixed_inv h
  have hlt := C.get32_shortens hg
  rw [length_drop]
  omega

/-- What comes out of a length-prefixed read was in the input. -/
theorem getLengthPrefixed_value_length : s.length ≤ src.length := by
  obtain ⟨len, tail, hg, -, rfl, -⟩ := C.getLengthPrefixed_inv h
  have hlt := C.get32_shortens hg
  rw [length_take]
  omega

end

/-- The length a length-prefixed string takes, at least its own. -/
theorem length_le_putLengthPrefixed (s : Bytes) :
    s.length ≤ (C.putLengthPrefixedSlice s).length := by
  unfold putLengthPrefixedSlice
  rw [length_append]
  omega

end Coding

-- ==== fixed-width integers

/-- `width` bytes of a number, lowest first. -/
def putFixed : Nat → Nat → Bytes
  | 0, _ => []
  | width + 1, n => UInt8.ofNat (n % 256) :: putFixed width (n / 256)

/-- Read a number of `width` bytes; `none` if the input is too
short. -/
def getFixed : Nat → Bytes → Option (Nat × Bytes)
  | 0, src => some (0, src)
  | _ + 1, [] => none
  | width + 1, b :: src =>
    (getFixed width src).map fun p => (b.toNat + 256 * p.1, p.2)

@[simp] theorem putFixed_length (width n : Nat) : (putFixed width n).length = width := by
  induction width generalizing n with
  | zero => rfl
  | succ width ih => rw [putFixed, length_cons, ih]

/-- A number that fits its width comes back. -/
theorem getFixed_put {width n : Nat} (hn : n < 256 ^ width) (rest : Bytes) :
    getFixed width (putFixed width n ++ rest) = some (n, rest) := by
  induction width generalizing n with
  | zero =>
    have hzero : n = 0 := by simpa using hn
    rw [hzero]
    rfl
  | succ width ih =>
    have hdiv : n / 256 < 256 ^ width := by
      rw [Nat.div_lt_iff_lt_mul (by omega)]
      rwa [Nat.pow_succ] at hn
    have hbyte : (UInt8.ofNat (n % 256)).toNat = n % 256 := by
      rw [UInt8.toNat_ofNat']
      omega
    rw [putFixed, cons_append, getFixed, ih hdiv, Option.map_some, hbyte, Nat.mod_add_div]

/-- A read of a fixed width takes that many bytes, whatever they are, and
nothing behind them matters. -/
theorem getFixed_append (p : Bytes) :
    ∃ n, ∀ rest, getFixed p.length (p ++ rest) = some (n, rest) := by
  induction p with
  | nil => exact ⟨0, fun _ => rfl⟩
  | cons b p ih =>
    obtain ⟨n, hn⟩ := ih
    refine ⟨b.toNat + 256 * n, fun rest => ?_⟩
    rw [length_cons, cons_append, getFixed, hn]
    rfl

theorem getFixed_of_short {width : Nat} {src : Bytes}
    (h : src.length < width) : getFixed width src = none := by
  induction width generalizing src with
  | zero => cases h
  | succ width ih =>
    cases src with
    | nil => rfl
    | cons b src => rw [getFixed, ih (Nat.lt_of_succ_lt_succ h)]; rfl

/-- A 32-bit number in four bytes. -/
def putFixed32 (v : UInt32) : Bytes := putFixed 4 v.toNat

/-- Read four bytes. -/
def getFixed32 (src : Bytes) : Option (UInt32 × Bytes) :=
  (getFixed 4 src).map fun p => (UInt32.ofNat p.1, p.2)

/-- A 64-bit number in eight bytes. -/
def putFixed64 (v : UInt64) : Bytes := putFixed 8 v.toNat

/-- Read eight bytes. -/
def getFixed64 (src : Bytes) : Option (UInt64 × Bytes) :=
  (getFixed 8 src).map fun p => (UInt64.ofNat p.1, p.2)

@[simp] theorem putFixed32_length (v : UInt32) : (putFixed32 v).length = 4 := putFixed_length 4 _

@[simp] theorem putFixed64_length (v : UInt64) : (putFixed64 v).length = 8 := putFixed_length 8 _

@[simp] theorem getFixed32_put (v : UInt32) (rest : Bytes) :
    getFixed32 (putFixed32 v ++ rest) = some (v, rest) := by
  have hv : v.toNat < 256 ^ 4 := v.toNat_lt
  simp [getFixed32, putFixed32, getFixed_put hv]

theorem getFixed32_append {p : Bytes} (hp : p.length = 4) :
    ∃ v, ∀ rest, getFixed32 (p ++ rest) = some (v, rest) := by
  obtain ⟨n, hn⟩ := getFixed_append p
  refine ⟨UInt32.ofNat n, fun rest => ?_⟩
  rw [getFixed32, ← hp, hn]
  rfl

theorem getFixed32_of_short {src : Bytes} (h : src.length < 4) : getFixed32 src = none := by
  rw [getFixed32, getFixed_of_short h]
  rfl

@[simp] theorem getFixed64_put (v : UInt64) (rest : Bytes) :
    getFixed64 (putFixed64 v ++ rest) = some (v, rest) := by
  have hv : v.toNat < 256 ^ 8 := v.toNat_lt
  simp [getFixed64, putFixed64, getFixed_put hv]

-- ==== the base-128 codec

/-- Seven bits to a byte, lowest first; `fuel` bounds the number of
bytes. -/
def putBase128 : Nat → Nat → Bytes
  | 0, _ => []
  | fuel + 1, n =>
    if n < 128 then [UInt8.ofNat n]
    else UInt8.ofNat (n % 128 + 128) :: putBase128 fuel (n / 128)

/-- Read at most `fuel` bytes of one number. -/
def getBase128 : Nat → Bytes → Option (Nat × Bytes)
  | 0, _ => none
  | _ + 1, [] => none
  | fuel + 1, b :: rest =>
    if b.toNat < 128 then some (b.toNat, rest)
    else
      match getBase128 fuel rest with
      | none => none
      | some (n, tail) => some (b.toNat - 128 + 128 * n, tail)

theorem getBase128_put :
    ∀ (fuel n : Nat) (rest : Bytes), 0 < fuel → n < 128 ^ fuel →
      getBase128 fuel (putBase128 fuel n ++ rest) = some (n, rest) := by
  intro fuel
  induction fuel with
  | zero => intro n rest h0; omega
  | succ fuel ih =>
    intro n rest _ hn
    unfold putBase128
    by_cases hs : n < 128
    · have hb : (UInt8.ofNat n).toNat = n := by
        rw [UInt8.toNat_ofNat']
        omega
      simp [hs, getBase128, hb]
    · have hb : (UInt8.ofNat (n % 128 + 128)).toNat = n % 128 + 128 := by
        rw [UInt8.toNat_ofNat']
        omega
      have hdiv : n / 128 < 128 ^ fuel := by
        rw [Nat.div_lt_iff_lt_mul (by omega)]
        rwa [Nat.pow_succ] at hn
      -- a number of two bytes or more leaves fuel for the rest
      have hfuel : 0 < fuel := by
        rcases Nat.eq_zero_or_pos fuel with h0 | h0
        · subst h0
          omega
        · exact h0
      rw [if_neg hs, cons_append]
      unfold getBase128
      rw [hb, if_neg (by omega), ih (n / 128) rest hfuel hdiv]
      simp only [Option.some.injEq, Prod.mk.injEq, and_true]
      omega

theorem putBase128_length_le (fuel n : Nat) : (putBase128 fuel n).length ≤ fuel := by
  induction fuel generalizing n with
  | zero => exact Nat.le_refl 0
  | succ fuel ih =>
    unfold putBase128
    split
    case isTrue => simp
    case isFalse =>
      have htail := ih (n / 128)
      rw [length_cons]
      omega

/-- A number takes a byte at least, and no more than it may. -/
theorem getBase128_length :
    ∀ {fuel : Nat} {src rest : Bytes} {n : Nat},
      getBase128 fuel src = some (n, rest) →
        rest.length < src.length ∧ src.length ≤ rest.length + fuel := by
  intro fuel
  induction fuel with
  | zero => intro src rest n h; cases h
  | succ fuel ih =>
    intro src rest n h
    cases src with
    | nil => cases h
    | cons b tail =>
      unfold getBase128 at h
      split at h
      case isTrue =>
        simp only [Option.some.injEq, Prod.mk.injEq] at h
        rw [← h.2, length_cons]
        omega
      case isFalse =>
        cases hg : getBase128 fuel tail with
        | none => rw [hg] at h; cases h
        | some p =>
          rw [hg] at h
          simp only [Option.some.injEq, Prod.mk.injEq] at h
          have htail : p.2.length < tail.length ∧ tail.length ≤ p.2.length + fuel := ih hg
          rw [← h.2, length_cons]
          omega

/-- The base-128 codec: at most five bytes for 32 bits, ten for 64. -/
def base128 : Coding where
  putVarint32 v := putBase128 5 v.toNat
  getVarint32 src := (getBase128 5 src).map fun p => (UInt32.ofNat p.1, p.2)
  putVarint64 v := putBase128 10 v.toNat
  getVarint64 src := (getBase128 10 src).map fun p => (UInt64.ofNat p.1, p.2)
  get_put32 v rest := by
    have hv := v.toNat_lt
    rw [getBase128_put 5 v.toNat rest (by omega) (by omega)]
    simp
  get_put64 v rest := by
    have hv := v.toNat_lt
    rw [getBase128_put 10 v.toNat rest (by omega) (by omega)]
    simp
  get32_shortens h := by
    obtain ⟨p, hp, he⟩ := Option.map_eq_some_iff.1 h
    cases he
    exact (getBase128_length hp).1
  get64_shortens h := by
    obtain ⟨p, hp, he⟩ := Option.map_eq_some_iff.1 h
    cases he
    exact (getBase128_length hp).1

theorem base128_reads64Within : base128.Reads64Within 10 := by
  intro src v rest h
  obtain ⟨p, hp, he⟩ := Option.map_eq_some_iff.1 h
  cases he
  exact (getBase128_length hp).2

end Lib
