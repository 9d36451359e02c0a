namespace Chip8

abbrev Word := UInt16

namespace Word

def k (w : Word) : UInt8 := UInt8.ofNat (w.toNat / 4096)

def x (w : Word) : UInt8 := UInt8.ofNat (w.toNat / 256 % 16)

def y (w : Word) : UInt8 := UInt8.ofNat (w.toNat / 16 % 16)

def n (w : Word) : UInt8 := UInt8.ofNat (w.toNat % 16)

def nn (w : Word) : UInt8 := UInt8.ofNat (w.toNat % 256)

def nnn (w : Word) : UInt16 := UInt16.ofNat (w.toNat % 4096)

def ofBytes (high low : UInt8) : Word := UInt16.ofNat (256 * high.toNat + low.toNat)

def high (w : Word) : UInt8 := UInt8.ofNat (w.toNat / 256)

theorem toNat_k (w : Word) : w.k.toNat = w.toNat / 4096 := by
  have := w.toNat_lt
  simp only [k, UInt8.toNat_ofNat']; omega

theorem toNat_x (w : Word) : w.x.toNat = w.toNat / 256 % 16 := by
  simp only [x, UInt8.toNat_ofNat']; omega

theorem toNat_y (w : Word) : w.y.toNat = w.toNat / 16 % 16 := by
  simp only [y, UInt8.toNat_ofNat']; omega

theorem toNat_n (w : Word) : w.n.toNat = w.toNat % 16 := by
  simp only [n, UInt8.toNat_ofNat']; omega

theorem toNat_nn (w : Word) : w.nn.toNat = w.toNat % 256 := by
  simp only [nn, UInt8.toNat_ofNat']; omega

theorem toNat_nnn (w : Word) : w.nnn.toNat = w.toNat % 4096 := by
  simp only [nnn, UInt16.toNat_ofNat']; omega

theorem x_lt (w : Word) : w.x < 16 := by
  rw [UInt8.lt_iff_toNat_lt, toNat_x]; exact Nat.mod_lt _ (by decide)

theorem y_lt (w : Word) : w.y < 16 := by
  rw [UInt8.lt_iff_toNat_lt, toNat_y]; exact Nat.mod_lt _ (by decide)

theorem n_lt (w : Word) : w.n < 16 := by
  rw [UInt8.lt_iff_toNat_lt, toNat_n]; exact Nat.mod_lt _ (by decide)

theorem nnn_lt (w : Word) : w.nnn < 0x1000 := by
  rw [UInt16.lt_iff_toNat_lt, toNat_nnn]; exact Nat.mod_lt _ (by decide)

theorem toNat_ofBytes (high low : UInt8) :
    (ofBytes high low).toNat = 256 * high.toNat + low.toNat := by
  have := high.toNat_lt
  have := low.toNat_lt
  simp only [ofBytes, UInt16.toNat_ofNat']; omega

end Word

def bits (byte : UInt8) : List Bool := (List.range 8).map fun j => byte.toNat.testBit (7 - j)

end Chip8
