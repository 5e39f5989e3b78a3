import Mathlib.Tactic.Ring
import Ziplog.Library.ByteImage

/-!
# Constants and byte order

The conversions of `common.h` on a little-endian host. A word is copied to and from memory with
`memcpy`: `store32 x` is its image there and `load32` reads it back. The network conversions
exchange the two byte orders, `htonll` through two 32-bit halves as in the source, and
`store32_htonl` and its siblings identify what ends up on the wire: the big-endian image.
-/

namespace Ziplog

open ByteImage

/-- `MAX_MESSAGE_SIZE`. -/
def maxMessageSize : ℕ := 65535

/-! ## Words in memory -/

def store16 (x : UInt16) : List UInt8 := le 2 x.toNat
def store32 (x : UInt32) : List UInt8 := le 4 x.toNat
def store64 (x : UInt64) : List UInt8 := le 8 x.toNat

def load16 (bytes : List UInt8) : UInt16 := UInt16.ofNat (ofLe bytes)
def load32 (bytes : List UInt8) : UInt32 := UInt32.ofNat (ofLe bytes)
def load64 (bytes : List UInt8) : UInt64 := UInt64.ofNat (ofLe bytes)

/-! ## Network order -/

/-- The word whose image in memory is the big-endian image of `x`. -/
def htons (x : UInt16) : UInt16 := load16 (be 2 x.toNat)
def htonl (x : UInt32) : UInt32 := load32 (be 4 x.toNat)

def ntohs (x : UInt16) : UInt16 := htons x
def ntohl (x : UInt32) : UInt32 := htonl x

/-- The two halves are converted and exchanged. -/
def htonll (value : UInt64) : UInt64 :=
  let high := htonl (value >>> 32).toUInt32
  let low := htonl (value &&& 0xFFFFFFFF).toUInt32
  (low.toUInt64 <<< 32) ||| high.toUInt64

def ntohll (value : UInt64) : UInt64 := htonll value

@[simp] theorem length_store16 (x : UInt16) : (store16 x).length = 2 := length_le 2 _
@[simp] theorem length_store32 (x : UInt32) : (store32 x).length = 4 := length_le 4 _
@[simp] theorem length_store64 (x : UInt64) : (store64 x).length = 8 := length_le 8 _

theorem store16_load16 {bytes : List UInt8} (h : bytes.length = 2) :
    store16 (load16 bytes) = bytes := by
  have hlt := ofLe_lt bytes
  rw [h] at hlt
  rw [store16, load16, UInt16.toNat_ofNat', Nat.mod_eq_of_lt (by omega), ← h, le_ofLe]

theorem store32_load32 {bytes : List UInt8} (h : bytes.length = 4) :
    store32 (load32 bytes) = bytes := by
  have hlt := ofLe_lt bytes
  rw [h] at hlt
  rw [store32, load32, UInt32.toNat_ofNat', Nat.mod_eq_of_lt (by omega), ← h, le_ofLe]

theorem toNat_load32 {bytes : List UInt8} (h : bytes.length = 4) :
    (load32 bytes).toNat = ofLe bytes := by
  have hlt := ofLe_lt bytes
  rw [h] at hlt
  rw [load32, UInt32.toNat_ofNat', Nat.mod_eq_of_lt (by omega)]

/-- Sixteen bits go on the wire most significant byte first. -/
theorem store16_htons (x : UInt16) : store16 (htons x) = be 2 x.toNat :=
  store16_load16 (length_be 2 _)

/-- Thirty-two bits go on the wire most significant byte first. -/
theorem store32_htonl (x : UInt32) : store32 (htonl x) = be 4 x.toNat :=
  store32_load32 (length_be 4 _)

theorem ntohs_load16_be (x : UInt16) : ntohs (load16 (be 2 x.toNat)) = x := by
  have h : store16 (load16 (be 2 x.toNat)) = be 2 x.toNat := store16_load16 (length_be 2 _)
  apply UInt16.toNat_inj.mp
  have hx : x.toNat < 256 ^ 2 := x.toNat_lt
  have hrev : be 2 (load16 (be 2 x.toNat)).toNat = le 2 x.toNat := by
    rw [be, ← store16, h, be, List.reverse_reverse]
  rw [ntohs, htons, hrev, load16, ofLe_le_of_lt hx, UInt16.ofNat_toNat]

theorem toNat_ntohl {bytes : List UInt8} (h : bytes.length = 4) :
    (ntohl (load32 bytes)).toNat = ofBe bytes := by
  have hrev : be 4 (load32 bytes).toNat = bytes.reverse := by
    rw [be, ← store32, store32_load32 h]
  rw [ntohl, htonl, hrev, toNat_load32 (by rw [List.length_reverse, h]), ofBe]

theorem ntohl_load32_be (x : UInt32) : ntohl (load32 (be 4 x.toNat)) = x := by
  apply UInt32.toNat_inj.mp
  rw [toNat_ntohl (length_be 4 _), ofBe_be_of_lt x.toNat_lt]

/-- A word written in network order is read back. -/
theorem ntohl_load32_htonl (x : UInt32) : ntohl (load32 (store32 (htonl x))) = x := by
  rw [store32_htonl, ntohl_load32_be]

/-- Four bytes read in network order are written back. -/
theorem store32_htonl_ntohl {bytes : List UInt8} (h : bytes.length = 4) :
    store32 (htonl (ntohl (load32 bytes))) = bytes := by
  have hrev : store32 (ntohl (load32 bytes)) = bytes.reverse := by
    rw [ntohl, store32_htonl, be, ← store32, store32_load32 h]
  rw [store32_htonl, be, ← store32, hrev, List.reverse_reverse]

/-! ## Sixty-four bits -/

theorem toNat_or_shift (low high : UInt32) :
    ((low.toUInt64 <<< 32) ||| high.toUInt64).toNat = high.toNat + 2 ^ 32 * low.toNat := by
  have hl : low.toNat < 2 ^ 32 := low.toNat_lt
  have hh : high.toNat < 2 ^ 32 := high.toNat_lt
  have hshift : (low.toUInt64 <<< 32).toNat = low.toNat <<< 32 := by
    rw [UInt64.toNat_shiftLeft, UInt32.toNat_toUInt64]
    show low.toNat <<< 32 % 2 ^ 64 = low.toNat <<< 32
    rw [Nat.shiftLeft_eq]
    omega
  rw [UInt64.toNat_or, hshift, UInt32.toNat_toUInt64, ← Nat.shiftLeft_add_eq_or_of_lt hh,
    Nat.shiftLeft_eq]
  ring

theorem toNat_high (value : UInt64) : (value >>> 32).toUInt32.toNat = value.toNat / 2 ^ 32 := by
  have h : value.toNat < 2 ^ 64 := value.toNat_lt
  rw [UInt64.toNat_toUInt32, UInt64.toNat_shiftRight]
  show value.toNat >>> 32 % 2 ^ 32 = value.toNat / 2 ^ 32
  rw [Nat.shiftRight_eq_div_pow]
  omega

theorem toNat_low (value : UInt64) :
    (value &&& 0xFFFFFFFF).toUInt32.toNat = value.toNat % 2 ^ 32 := by
  rw [UInt64.toNat_toUInt32, UInt64.toNat_and]
  show (value.toNat &&& (2 ^ 32 - 1)) % 2 ^ 32 = value.toNat % 2 ^ 32
  rw [Nat.and_two_pow_sub_one_eq_mod, Nat.mod_mod]

/-- Sixty-four bits go on the wire most significant byte first, although the conversion works on
two halves. -/
theorem store64_htonll (value : UInt64) : store64 (htonll value) = be 8 value.toNat := by
  have hhigh := store32_htonl (value >>> 32).toUInt32
  have hlow := store32_htonl (value &&& 0xFFFFFFFF).toUInt32
  rw [store32, toNat_high] at hhigh
  rw [store32, toNat_low] at hlow
  have hlt : (htonl (value >>> 32).toUInt32).toNat < 2 ^ 32 := UInt32.toNat_lt _
  have hpow : (256 : ℕ) ^ 4 = 2 ^ 32 := by decide
  have hmod : be 4 (value.toNat % 2 ^ 32) = be 4 value.toNat := by
    rw [← hpow, be, le_mod, be]
  unfold store64 htonll
  simp only [toNat_or_shift]
  rw [show (8 : ℕ) = 4 + 4 from rfl, le_add, be_add, hpow]
  congr 1
  · rw [← le_mod, hpow, Nat.add_mul_mod_self_left, ← hpow, le_mod, hhigh, ← hpow]
  · rw [Nat.add_mul_div_left _ _ (by decide), Nat.div_eq_of_lt hlt, Nat.zero_add, hlow, hmod]

theorem store64_load64 {bytes : List UInt8} (h : bytes.length = 8) :
    store64 (load64 bytes) = bytes := by
  have hlt := ofLe_lt bytes
  rw [h] at hlt
  rw [store64, load64, UInt64.toNat_ofNat', Nat.mod_eq_of_lt (by omega), ← h, le_ofLe]

theorem load64_store64 (x : UInt64) : load64 (store64 x) = x := by
  apply UInt64.toNat_inj.mp
  have hx : x.toNat < 256 ^ 8 := x.toNat_lt
  rw [store64, load64, ofLe_le_of_lt hx, UInt64.ofNat_toNat]

theorem ntohll_load64_be (x : UInt64) : ntohll (load64 (be 8 x.toNat)) = x := by
  have h := store64_htonll (load64 (be 8 x.toNat))
  have hx : x.toNat < 256 ^ 8 := x.toNat_lt
  have hrev : be 8 (load64 (be 8 x.toNat)).toNat = store64 x := by
    rw [be, ← store64, store64_load64 (length_be 8 _), be, List.reverse_reverse, store64]
  rw [hrev] at h
  rw [ntohll, ← load64_store64 (htonll _), h, load64_store64]

theorem ntohll_load64_htonll (x : UInt64) : ntohll (load64 (store64 (htonll x))) = x := by
  rw [store64_htonll, ntohll_load64_be]

/-- Eight bytes read in network order are written back. -/
theorem store64_htonll_ntohll {bytes : List UInt8} (h : bytes.length = 8) :
    store64 (htonll (ntohll (load64 bytes))) = bytes := by
  have hrev : store64 (ntohll (load64 bytes)) = bytes.reverse := by
    rw [ntohll, store64_htonll, be, ← store64, store64_load64 h]
  rw [store64_htonll, be, ← store64, hrev, List.reverse_reverse]

end Ziplog
