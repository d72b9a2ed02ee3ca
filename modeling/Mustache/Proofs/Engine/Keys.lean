import Mathlib.Algebra.Order.BigOperators.Group.List
import Mathlib.Algebra.Order.Group.Nat
import Mustache.Engine

/-!
Keys. The bytes that a key is the digest of tell the sources of an engine apart, so its keys do so
too as far as the digest does. A digest that tells finitely many inputs apart can be replaced by
one that tells all apart and is the same on these. Main statement: `exists_injective_digest`.
-/

namespace Mustache.Engine

variable {σ : Type}

/-! ### Bytes -/

theorem byteArray_toList_loop (bytes : ByteArray) (i : Nat) (acc : List UInt8) :
    ByteArray.toList.loop bytes i acc = acc.reverse ++ bytes.data.toList.drop i := by
  induction i, acc using ByteArray.toList.loop.induct bytes with
  | case1 i acc hi ih =>
    have hlength : i < bytes.data.toList.length := by simpa using hi
    have hget : bytes.get! i = bytes.data.toList[i] := by
      simp only [ByteArray.get!]
      exact getElem!_pos bytes.data i hi
    rw [ByteArray.toList.loop, if_pos hi, ih, List.drop_eq_getElem_cons hlength, hget]
    simp
  | case2 i acc hi =>
    have hlength : bytes.data.toList.length ≤ i := by simpa using hi
    rw [ByteArray.toList.loop, if_neg hi, List.drop_eq_nil_of_le hlength, List.append_nil]

theorem utf8_injective {a b : String} (h : a.toUTF8.toList = b.toUTF8.toList) : a = b := by
  have hdata : ∀ s : String, s.toUTF8.toList = s.toUTF8.data.toList := by
    intro s
    change ByteArray.toList.loop s.toUTF8 0 [] = _
    rw [byteArray_toList_loop]
    rfl
  rw [hdata, hdata] at h
  exact String.toByteArray_inj.mp (ByteArray.ext (Array.toList_inj.mp h))

/-- Two sources that an engine digests the same bytes for are the same. -/
theorem keyBytes_injective {fingerprint source other : String}
    (h : keyBytes fingerprint source = keyBytes fingerprint other) : source = other := by
  unfold keyBytes at h
  exact utf8_injective (List.cons.inj (List.append_cancel_left h)).2

theorem cacheKey_injective {e : Engine σ} (h : Function.Injective e.digest) :
    Function.Injective e.cacheKey :=
  fun _ _ hkey => keyBytes_injective (h hkey)

/-! ### Digests -/

theorem ofUInt8_injective : Function.Injective Char.ofUInt8 := by
  intro a b h
  have hval : a.toUInt32 = b.toUInt32 := congrArg Char.val h
  exact UInt8.toNat_inj.mp (by simpa using congrArg UInt32.toNat hval)

/-- The bytes written out behind `n` letters. -/
def spelled (n : Nat) (bytes : List UInt8) : String :=
  String.ofList (List.replicate n 'x' ++ bytes.map Char.ofUInt8)

theorem spelled_injective (n : Nat) : Function.Injective (spelled n) := by
  intro a b h
  have hlist := List.append_cancel_left (String.ofList_injective h)
  exact (List.map_inj_right fun _ _ hchar => ofUInt8_injective hchar).mp hlist

/-- **A digest that tells some inputs apart agrees on them with one that tells all apart.** -/
theorem exists_injective_digest {digest : List UInt8 → String} {inputs : List (List UInt8)}
    (hdistinct : ∀ x ∈ inputs, ∀ y ∈ inputs, digest x = digest y → x = y) :
    ∃ ideal : List UInt8 → String, Function.Injective ideal ∧ ∀ x ∈ inputs, ideal x = digest x := by
  let n := (inputs.map fun x => (digest x).toList.length).sum + 1
  have hlong : ∀ x ∈ inputs, ∀ y, digest x ≠ spelled n y := by
    intro x hx y h
    have hle : (digest x).toList.length ≤ (inputs.map fun x => (digest x).toList.length).sum :=
      List.le_sum_of_mem (List.mem_map_of_mem hx)
    rw [h] at hle
    unfold spelled at hle
    rw [String.toList_ofList, List.length_append, List.length_replicate] at hle
    omega
  refine ⟨fun x => if x ∈ inputs then digest x else spelled n x, ?_, ?_⟩
  · intro x y h
    dsimp only at h
    by_cases hx : x ∈ inputs
    · by_cases hy : y ∈ inputs
      · rw [if_pos hx, if_pos hy] at h
        exact hdistinct x hx y hy h
      · rw [if_pos hx, if_neg hy] at h
        exact absurd h (hlong x hx y)
    · by_cases hy : y ∈ inputs
      · rw [if_neg hx, if_pos hy] at h
        exact absurd h.symm (hlong y hy x)
      · rw [if_neg hx, if_neg hy] at h
        exact spelled_injective n h
  · intro x hx
    exact if_pos hx

end Mustache.Engine
