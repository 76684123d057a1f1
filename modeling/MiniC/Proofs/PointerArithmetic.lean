import Mathlib.Algebra.Group.Nat.Defs
import MiniC.Arithmetic

/-!
# Arithmetic of pointers

A pointer moves by whole elements, and its offset wraps around at 64 bits.  Sums of moves are moves
by sums, whatever wraps on the way.  To get back the number of elements from the distance, only the
number of bytes has to fit 64 bits, and not the offset that the pointer is moved to; to compare
pointers as the numbers of elements compare, the offsets have to fit.  The distance is divided by a
size that is at least 1, so no quotient is undefined or wraps.

Main definitions:

* `MiniC.Pointer.HasRoom`: a pointer can be moved without wrapping around.

Main results:

* `MiniC.Pointer.diff?_add_iff`: when the distance of a moved pointer tells the move;
* `MiniC.Pointer.toInt_of_diff?`: distances are rounded quotients of integers without bounds;
* `MiniC.Pointer.offset_lt_iff`: how moved pointers compare;
* `MiniC.pointer_arithmetic`: all laws, for the operators.
-/

set_option autoImplicit false

namespace MiniC

/-! ### Integers of 64 bits -/

/-- An integer of 64 bits is what it is in range for. -/
theorem bmod_of_inRange {n : Int} (h : Decimal.InRange n) : n.bmod (2 ^ 64) = n := by
  obtain ⟨hmin, hmax⟩ := h
  have hlow : Int64.minValue.toInt = -2 ^ 63 := by decide
  have hhigh : Int64.maxValue.toInt = 2 ^ 63 - 1 := by decide
  exact Int.bmod_eq_of_le (by omega) (by omega)

/-- A product that is in range does not wrap. -/
theorem toInt_mul_of_inRange {n s : Int64} (h : Decimal.InRange (n.toInt * s.toInt)) :
    (n * s).toInt = n.toInt * s.toInt := by
  rw [Int64.toInt_mul, bmod_of_inRange h]

/-- Division by a positive integer does not wrap. -/
theorem toInt_div_of_pos (n : Int64) {d : Int64} (hd : 0 < d) :
    (n / d).toInt = n.toInt.tdiv d.toInt := by
  refine Int64.toInt_div_of_ne_right n d ?_
  rintro rfl
  exact absurd hd (by decide)

namespace Pointer

/-! ### Distances -/

/-- What a distance is divided by is positive, whatever the size of the elements. -/
theorem divisor_pos (size : Int64) : 0 < if size < 1 then 1 else size := by
  split
  · decide
  · next h => exact Int64.lt_of_lt_of_le (by decide) (Int64.not_lt.1 h)

/-- A positive size is what distances are divided by. -/
theorem divisor_eq {size : Int64} (hs : 0 < size) : (if size < 1 then 1 else size) = size := by
  refine if_neg fun h => ?_
  rw [Int64.lt_iff_toInt_lt] at h hs
  have hone : (1 : Int64).toInt = 1 := rfl
  have hzero : (0 : Int64).toInt = 0 := rfl
  omega

/-- Pointers have a distance just if they point into one region. -/
theorem diff?_eq_none_iff (p q : Pointer) (size : Int64) :
    p.diff? q size = none ↔ p.region ≠ q.region := by
  unfold diff?
  split
  · next h => exact iff_of_false (Option.some_ne_none _) fun hne => hne h
  · next h => exact iff_of_true rfl h

/-- A distance is the quotient of the distance in bytes, rounded toward zero: the division is one of
integers without bounds, by a positive one. -/
theorem toInt_of_diff? {p q : Pointer} {size k : Int64} (h : p.diff? q size = some k) :
    k.toInt = (p.offset - q.offset).toInt.tdiv (if size < 1 then 1 else size).toInt := by
  unfold diff? at h
  split at h
  · rw [← Option.some.inj h]
    exact toInt_div_of_pos _ (divisor_pos size)
  · cases h

/-- No pointer is away from itself. -/
theorem diff?_self (p : Pointer) (size : Int64) : p.diff? p size = some 0 := by
  have hzero : p.offset - p.offset = 0 := by grind
  rw [diff?, if_pos rfl, hzero, Int64.zero_div]

/-- The distance that a pointer has been moved by is the number of elements just if their bytes fit
64 bits; the offset may have wrapped around. -/
theorem diff?_add_iff (p : Pointer) {n size : Int64} (hs : 0 < size) :
    (p.add n size).diff? p size = some n ↔ Decimal.InRange (n.toInt * size.toInt) := by
  have hpos : 0 < size.toInt := Int64.lt_iff_toInt_lt.1 hs
  have hdistance : p.offset + n * size - p.offset = n * size := by grind
  rw [diff?, region_add, if_pos rfl, divisor_eq hs, Option.some.injEq]
  show (p.offset + n * size - p.offset) / size = n ↔ _
  rw [hdistance, ← Int64.toInt_inj, toInt_div_of_pos _ hs]
  constructor
  · intro hquotient
    -- The bytes differ from the exact product by a multiple of `2 ^ 64`, and by less than a size.
    have hrest := Int.tmod_add_mul_tdiv (n * size).toInt size.toInt
    have hless := Int.tmod_lt_of_pos (n * size).toInt hpos
    have hmore := Int.lt_tmod_of_pos (n * size).toInt hpos
    have hwrap := Int.bmod_add_bdiv (n.toInt * size.toInt) (2 ^ 64)
    rw [← Int64.toInt_mul] at hwrap
    rw [hquotient, Int.mul_comm] at hrest
    have hexact : (n * size).toInt = n.toInt * size.toInt := by
      have hsize := size.toInt_lt
      omega
    rw [← hexact]
    exact Decimal.inRange_toInt _
  · intro hbytes
    rw [toInt_mul_of_inRange hbytes, Int.mul_tdiv_cancel _ (Int.ne_of_gt hpos)]

/-! ### Order -/

/-- The pointer can be moved by `n` elements of `size` bytes without wrapping around. -/
def HasRoom (p : Pointer) (n size : Int64) : Prop :=
  Decimal.InRange (p.offset.toInt + n.toInt * size.toInt)

instance (p : Pointer) (n size : Int64) : Decidable (p.HasRoom n size) :=
  inferInstanceAs (Decidable (Decimal.InRange _))

/-- A pointer with room for a move has the exact offset behind it, even if the number of bytes does
not fit 64 bits. -/
theorem HasRoom.toInt_offset {p : Pointer} {n size : Int64} (h : p.HasRoom n size) :
    (p.add n size).offset.toInt = p.offset.toInt + n.toInt * size.toInt := by
  show (p.offset + n * size).toInt = _
  rw [Int64.toInt_add, Int64.toInt_mul, Int.add_bmod_bmod, bmod_of_inRange h]

/-- Pointers that have been moved without wrapping around are in the order of the moves. -/
theorem offset_lt_iff {p : Pointer} {n m size : Int64} (hs : 0 < size) (hn : p.HasRoom n size)
    (hm : p.HasRoom m size) : (p.add n size).offset < (p.add m size).offset ↔ n < m := by
  rw [Int64.lt_iff_toInt_lt] at hs ⊢
  rw [hn.toInt_offset, hm.toInt_offset, Int.add_lt_add_iff_left, Int64.lt_iff_toInt_lt]
  exact Int.mul_lt_mul_right hs

end Pointer

/-! ### Operators -/

namespace BinaryOp

/-- Two pointers are equal just if `==` says so. -/
theorem apply_eq_pointer_iff (p q : Pointer) (s t : Int64) :
    eq.apply (.pointer p) (.pointer q) s t = .ok (.ofBool true) ↔ p = q := by
  show Except.ok (Value.ofBool (decide (p = q))) = .ok (.ofBool true) ↔ p = q
  by_cases h : p = q
  · rw [decide_eq_true h]
    exact iff_of_true rfl h
  · rw [decide_eq_false h]
    exact iff_of_false (fun hvalue => absurd (Except.ok.inj hvalue) (by decide)) h

/-- `-` yields the distance of two pointers. -/
theorem apply_sub_pointer_eq_ok_iff (p q : Pointer) (k s t : Int64) :
    sub.apply (.pointer p) (.pointer q) s t = .ok (.integer k) ↔ p.diff? q s = some k := by
  simp only [apply, onPointers]
  cases p.diff? q s with
  | none => exact iff_of_false (by rintro ⟨⟩) (by rintro ⟨⟩)
  | some d => rw [Except.ok.injEq, Value.integer.injEq, Option.some.injEq]

/-- `-` fails just for pointers into different regions. -/
theorem apply_sub_pointer_eq_error_iff (p q : Pointer) (s t : Int64) :
    (∃ f, sub.apply (.pointer p) (.pointer q) s t = .error f) ↔ p.region ≠ q.region := by
  rw [← Pointer.diff?_eq_none_iff p q s]
  simp only [apply, onPointers]
  cases p.diff? q s with
  | none => exact iff_of_true ⟨_, rfl⟩ rfl
  | some k => exact iff_of_false (fun ⟨_, h⟩ => by cases h) (Option.some_ne_none k)

end BinaryOp

/-- The laws of `+`, `-`, `==` and `<` on pointers to elements of `s` bytes; the size `t` is that of
an operand which is no pointer.  First the sums: the pointer may stand on either side, two moves are
one, and a difference is a sum.  Then the distances: that of a moved pointer, that of equal ones,
and when there is none.  Then the order of moved pointers.  Last the division: whatever the size,
the divisor is positive, and the quotient is the one of integers without bounds. -/
theorem pointer_arithmetic (p q : Pointer) (n m : Int64) {s : Int64} (hs : 0 < s) (t : Int64) :
    let plus := fun (v : Value) (k : Int64) => BinaryOp.add.apply v (.integer k) s t
    let minus := fun v w : Value => BinaryOp.sub.apply v w s t
    (plus (.pointer p) n = .ok (.pointer (p.add n s)) ∧
      BinaryOp.add.apply (.integer n) (.pointer p) t s = plus (.pointer p) n ∧
      (plus (.pointer p) n >>= fun v => plus v m) = plus (.pointer p) (n + m) ∧
      minus (.pointer p) (.integer n) = plus (.pointer p) (-n)) ∧
    (((plus (.pointer p) n >>= fun v => minus v (.pointer p)) = .ok (.integer n) ↔
        Decimal.InRange (n.toInt * s.toInt)) ∧
      (BinaryOp.eq.apply (.pointer p) (.pointer q) s t = .ok (.ofBool true) →
        minus (.pointer p) (.pointer q) = .ok (.integer 0)) ∧
      ((∃ f, minus (.pointer p) (.pointer q) = .error f) ↔ p.region ≠ q.region)) ∧
    (p.HasRoom n s → p.HasRoom m s →
      (do let v ← plus (.pointer p) n
          let w ← plus (.pointer p) m
          BinaryOp.lt.apply v w s t) = .ok (.ofBool (n < m))) ∧
    ∀ u k, BinaryOp.sub.apply (.pointer p) (.pointer q) u t = .ok (.integer k) →
      let divisor := if u < 1 then 1 else u
      0 < divisor ∧ k.toInt = (p.offset - q.offset).toInt.tdiv divisor.toInt := by
  refine ⟨⟨rfl, BinaryOp.apply_add_comm p n s t, ?_, rfl⟩, ⟨?_, fun heq => ?_, ?_⟩,
    fun hn hm => ?_, fun u k hk => ⟨Pointer.divisor_pos u, ?_⟩⟩
  · show Except.ok (Value.pointer _) = .ok (.pointer _)
    rw [Pointer.add_add]
  · exact (BinaryOp.apply_sub_pointer_eq_ok_iff (p.add n s) p n s t).trans (p.diff?_add_iff hs)
  · obtain rfl := (BinaryOp.apply_eq_pointer_iff p q s t).1 heq
    exact (BinaryOp.apply_sub_pointer_eq_ok_iff p p 0 s t).2 (p.diff?_self s)
  · exact BinaryOp.apply_sub_pointer_eq_error_iff p q s t
  · have horder : decide ((p.add n s).offset < (p.add m s).offset) = decide (n < m) :=
      decide_eq_decide.2 (Pointer.offset_lt_iff hs hn hm)
    show BinaryOp.order (p.add n s) (p.add m s) _ = _
    rw [horder, BinaryOp.order]
    exact if_pos rfl
  · exact Pointer.toInt_of_diff? ((BinaryOp.apply_sub_pointer_eq_ok_iff p q k u t).1 hk)

/-- Eight bytes to the element, from an offset that three elements more wrap around: the distance
tells the three, and `p + 3` stands before `p` nevertheless. -/
theorem pointer_arithmetic_wrapping :
    let p : Pointer := ⟨0, Int64.maxValue - 7⟩
    (0 : Int64) < 8 ∧ ¬p.HasRoom 3 8 ∧
      (BinaryOp.add.apply (.pointer p) (.integer 3) 8 1 >>= fun v =>
        BinaryOp.sub.apply v (.pointer p) 8 1) = .ok (.integer 3) ∧
      (BinaryOp.add.apply (.pointer p) (.integer 3) 8 1 >>= fun v =>
        BinaryOp.lt.apply v (.pointer p) 8 1) = .ok (.ofBool true) ∧
      p.HasRoom (-3) 8 ∧ p.HasRoom (-2) 8 ∧
      (do let v ← BinaryOp.add.apply (.pointer p) (.integer (-3)) 8 1
          let w ← BinaryOp.add.apply (.pointer p) (.integer (-2)) 8 1
          BinaryOp.lt.apply v w 8 1) = .ok (.ofBool true) := by
  intro p
  have hsize : (0 : Int64) < 8 := by decide
  have hlow : p.HasRoom (-3) 8 := by decide
  have hhigh : p.HasRoom (-2) 8 := by decide
  have hthree := pointer_arithmetic p p 3 3 hsize 1
  have hmoves := pointer_arithmetic p p (-3) (-2) hsize 1
  exact ⟨hsize, by decide, hthree.2.1.1.2 (by decide), rfl, hlow, hhigh,
    hmoves.2.2.1 hlow hhigh⟩

end MiniC
