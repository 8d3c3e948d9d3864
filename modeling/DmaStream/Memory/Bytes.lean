namespace DmaStream.Bytes

/-- Byte strings are compared by their bytes, and through this one instance. -/
instance decEq : DecidableEq ByteArray := fun a b =>
  decidable_of_decidable_of_iff (p := a.data = b.data) ⟨ByteArray.ext, congrArg ByteArray.data⟩

/-- `n` zero bytes. -/
def zeros (n : Nat) : ByteArray :=
  ⟨Array.replicate n 0⟩

/-- `n` copies of one byte. -/
def replicate (n : Nat) (b : UInt8) : ByteArray :=
  ⟨Array.replicate n b⟩

/-- The bytes from `off` on, at most `len` of them. -/
def slice (b : ByteArray) (off len : Nat) : ByteArray :=
  b.extract off (off + len)

/-- Overwrite from `off` on; what would lie beyond the end is left out. -/
def patch (b : ByteArray) (off : Nat) (src : ByteArray) : ByteArray :=
  src.copySlice 0 b off (min src.size (b.size - off))

theorem getElem?_data (b : ByteArray) (i : Nat) : b[i]? = b.data[i]? := rfl

theorem ext_getElem? {a b : ByteArray} (h : ∀ i : Nat, a[i]? = b[i]?) : a = b :=
  ByteArray.ext (Array.ext_getElem? h)

@[simp] theorem size_zeros (n : Nat) : (zeros n).size = n :=
  Array.size_replicate

@[simp] theorem size_replicate (n : Nat) (x : UInt8) : (replicate n x).size = n :=
  Array.size_replicate

@[simp] theorem size_slice (b : ByteArray) (off len : Nat) :
    (slice b off len).size = min (off + len) b.size - off := by
  simp [slice]

theorem getElem?_slice (b : ByteArray) (off len i : Nat) :
    (slice b off len)[i]? = if i < len then b[off + i]? else none := by
  simp only [getElem?_data, slice, ByteArray.data_extract, Array.getElem?_extract]
  by_cases hi : i < len
  · by_cases hb : off + i < b.data.size
    · rw [if_pos (by omega), if_pos hi]
    · rw [if_neg (by omega), if_pos hi, Array.getElem?_eq_none (by omega)]
  · rw [if_neg (by omega), if_neg hi]

theorem data_patch (b : ByteArray) (off : Nat) (src : ByteArray) :
    (patch b off src).data =
      b.data.extract 0 off ++ src.data.extract 0 (min src.size (b.size - off)) ++
        b.data.extract (off + min src.size (b.size - off)) b.size := by
  have hmin : min (min src.size (b.size - off)) src.data.size = min src.size (b.size - off) := by
    show min (min src.data.size (b.data.size - off)) src.data.size = _
    change _ = min src.data.size (b.data.size - off)
    omega
  simp only [patch, ByteArray.copySlice, Nat.zero_add, Nat.sub_zero, hmin]
  rfl

@[simp] theorem size_patch (b : ByteArray) (off : Nat) (src : ByteArray) :
    (patch b off src).size = b.size := by
  change (patch b off src).data.size = b.data.size
  rw [data_patch]
  simp only [Array.size_append, Array.size_extract]
  change min off b.data.size - 0 + (min (min src.data.size (b.data.size - off)) src.data.size - 0) +
    (min b.data.size b.data.size - (off + min src.data.size (b.data.size - off))) = b.data.size
  omega

theorem getElem?_patch (b : ByteArray) (off : Nat) (src : ByteArray) (i : Nat) :
    (patch b off src)[i]? =
      if off ≤ i ∧ i < off + src.size ∧ i < b.size then src[i - off]? else b[i]? := by
  have hb : b.size = b.data.size := rfl
  have hs : src.size = src.data.size := rfl
  simp only [getElem?_data, data_patch, Array.getElem?_append, Array.size_append,
    Array.size_extract, Array.getElem?_extract, hb, hs, Nat.zero_add, Nat.sub_zero]
  by_cases hlow : i < off
  · by_cases hin : i < b.data.size
    · rw [if_pos (by omega), if_pos (by omega), if_pos (by omega), if_neg (by omega)]
    · rw [if_neg (by omega), if_neg (by omega), if_neg (by omega),
          Array.getElem?_eq_none (by omega)]
  · by_cases hmid : i < off + src.data.size ∧ i < b.data.size
    · rw [if_pos (by omega), if_neg (by omega), if_pos (by omega), if_pos (by omega)]
      congr 1
      omega
    · by_cases hin : i < b.data.size
      · rw [if_neg (by omega), if_pos (by omega), if_neg (by omega)]
        congr 1
        omega
      · rw [if_neg (by omega), if_neg (by omega), if_neg (by omega),
          Array.getElem?_eq_none (by omega)]

theorem slice_patch_self {b src : ByteArray} {off : Nat} (h : off + src.size ≤ b.size) :
    slice (patch b off src) off src.size = src := by
  apply ext_getElem?
  intro i
  rw [getElem?_slice, getElem?_patch]
  by_cases hi : i < src.size
  · rw [if_pos hi, if_pos (by omega)]
    congr 1
    omega
  · rw [if_neg hi, getElem?_data, Array.getElem?_eq_none (by exact Nat.le_of_not_lt hi)]

end DmaStream.Bytes
