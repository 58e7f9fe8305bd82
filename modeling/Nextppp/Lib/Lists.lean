/-
**Byte strings: exclusive-or, fixed-size chunks and chains of swaps.**

Three small theories of lists that the codec of this library is built from.  None of them knows
anything about a protocol.

* Exclusive-or of two byte strings, position by position.  Masking twice with the same mask is the
  identity as soon as the mask is long enough (`ListLib.xorBytes_cancel`).
* Cutting a list into chunks of `n` elements and a shorter tail (`ListLib.asChunks`) or into
  pieces of which the last may be shorter (`ListLib.pieces`), with the induction principle that
  follows the cut (`ListLib.chunk_induction`).
* Loops whose body is an involution for every index: running the loop backwards undoes it
  (`ListLib.foldl_reverse_cancel`).  The instance that matters here is a chain of swaps of two
  positions (`ListLib.swapAt`), which moves positions whatever the elements are
  (`ListLib.foldl_swapAt_getElem?`).
-/

import Mathlib

set_option relaxedAutoImplicit false
set_option autoImplicit false

namespace ListLib

/-! ### Exclusive-or of byte strings -/

/-- Exclusive-or of two byte strings, as long as the shorter of the two. -/
def xorBytes (a b : List UInt8) : List UInt8 := List.zipWith (· ^^^ ·) a b

@[simp] theorem xorBytes_nil_left (b : List UInt8) : xorBytes [] b = [] := rfl

@[simp] theorem xorBytes_cons (x y : UInt8) (a b : List UInt8) :
    xorBytes (x :: a) (y :: b) = (x ^^^ y) :: xorBytes a b := rfl

@[simp] theorem xorBytes_length (a b : List UInt8) :
    (xorBytes a b).length = min a.length b.length := by simp [xorBytes]

theorem xorBytes_length_of_le {a b : List UInt8} (h : a.length ≤ b.length) :
    (xorBytes a b).length = a.length := by simp [h]

/-- Masking twice with the same mask is the identity. -/
theorem xorBytes_cancel {a m : List UInt8} (h : a.length ≤ m.length) :
    xorBytes (xorBytes a m) m = a := by
  induction a generalizing m with
  | nil => simp
  | cons x a ih =>
      cases m with
      | nil => simp at h
      | cons y m =>
          rw [xorBytes_cons, xorBytes_cons, ih (by simpa using h), UInt8.xor_assoc, UInt8.xor_self,
            UInt8.xor_zero]

theorem xorBytes_comm (a b : List UInt8) : xorBytes a b = xorBytes b a :=
  List.zipWith_comm_of_comm UInt8.xor_comm

theorem xorBytes_append {a b c d : List UInt8} (h : a.length = c.length) :
    xorBytes (a ++ b) (c ++ d) = xorBytes a c ++ xorBytes b d :=
  List.zipWith_append h

/-- A mask longer than the data can be cut to the length of the data. -/
theorem xorBytes_append_right {a m : List UInt8} (m' : List UInt8) (h : a.length ≤ m.length) :
    xorBytes a (m ++ m') = xorBytes a m := by
  induction a generalizing m with
  | nil => simp
  | cons x a ih =>
      cases m with
      | nil => simp at h
      | cons y m => simp [ih (m := m) (by simpa using h)]

/-! ### Chunks -/

section Chunks

variable {α : Type*}

/-- The full chunks of `n` elements at the front of `l`, and the shorter tail behind them. -/
def asChunks (n : ℕ) (l : List α) : List (List α) × List α :=
  ((List.range (l.length / n)).map fun i => (l.drop (i * n)).take n, l.drop (l.length / n * n))

theorem asChunks_of_lt {n : ℕ} {l : List α} (h : l.length < n) : asChunks n l = ([], l) := by
  simp [asChunks, Nat.div_eq_of_lt h]

/-- Behind a full chunk the cuts are those of the rest, one chunk further on. -/
theorem drop_chunk {n : ℕ} {c : List α} (hc : c.length = n) (l : List α) (k : ℕ) :
    (c ++ l).drop ((k + 1) * n) = l.drop (k * n) := by
  rw [Nat.succ_mul, Nat.add_comm, ← hc, List.drop_length_add_append]

theorem asChunks_append {n : ℕ} (hn : 0 < n) {c : List α} (hc : c.length = n) (l : List α) :
    asChunks n (c ++ l) = (c :: (asChunks n l).1, (asChunks n l).2) := by
  have hdiv : (c ++ l).length / n = l.length / n + 1 := by
    rw [List.length_append, hc, Nat.add_div_left _ hn]
  have hdrop := drop_chunk hc l
  unfold asChunks
  rw [hdiv, List.range_succ_eq_map, List.map_cons, List.map_map, hdrop]
  congr 2
  · simp [← hc]
  · refine List.map_congr_left fun i _ => ?_
    simp only [Function.comp_apply, Nat.succ_eq_add_one, hdrop]

/-- Induction that follows the cut into chunks: a short list, or a full chunk in front of a list
for which the property is known. -/
theorem chunk_induction {n : ℕ} (hn : 0 < n) {motive : List α → Prop}
    (short : ∀ l : List α, l.length < n → motive l)
    (chunk : ∀ c l : List α, c.length = n → motive l → motive (c ++ l)) :
    ∀ l : List α, motive l := by
  intro l
  induction hlen : l.length using Nat.strong_induction_on generalizing l with
  | _ k ih =>
      by_cases h : l.length < n
      · exact short l h
      · rw [← List.take_append_drop n l]
        refine chunk _ _ (by simp; omega) (ih (l.drop n).length ?_ _ rfl)
        simp; omega

theorem asChunks_length {n : ℕ} (hn : 0 < n) (l : List α) :
    (∀ c ∈ (asChunks n l).1, c.length = n) ∧ (asChunks n l).2.length < n := by
  induction l using chunk_induction hn with
  | short l h => simp [asChunks_of_lt h, h]
  | chunk c l hc ih =>
      rw [asChunks_append hn hc]
      refine ⟨?_, ih.2⟩
      simpa [hc] using ih.1

/-- The chunks and the tail, put back together, are the list. -/
theorem asChunks_flatten {n : ℕ} (hn : 0 < n) (l : List α) :
    (asChunks n l).1.flatten ++ (asChunks n l).2 = l := by
  induction l using chunk_induction hn with
  | short l h => simp [asChunks_of_lt h]
  | chunk c l hc ih => rw [asChunks_append hn hc, List.flatten_cons, List.append_assoc, ih]

/-- The pieces of `n` elements that make up `l`, the last one as short as need be. -/
def pieces (n : ℕ) (l : List α) : List (List α) :=
  (List.range ((l.length + (n - 1)) / n)).map fun i => (l.drop (i * n)).take n

theorem pieces_nil (n : ℕ) : pieces n ([] : List α) = [] := by
  cases n with
  | zero => simp [pieces]
  | succ n => simp [pieces, Nat.div_eq_of_lt (Nat.lt_succ_self n)]

theorem pieces_of_lt {n : ℕ} {l : List α} (hl : l ≠ []) (h : l.length < n) :
    pieces n l = [l] := by
  have hpos := List.length_pos_iff.2 hl
  have hone : (l.length + (n - 1)) / n = 1 := by
    rw [Nat.div_eq_iff (by omega)]
    omega
  simp [pieces, hone, List.take_of_length_le h.le]

theorem pieces_append {n : ℕ} (hn : 0 < n) {c : List α} (hc : c.length = n) (l : List α) :
    pieces n (c ++ l) = c :: pieces n l := by
  have hdiv : ((c ++ l).length + (n - 1)) / n = (l.length + (n - 1)) / n + 1 := by
    rw [List.length_append, hc, Nat.add_assoc, Nat.add_div_left _ hn]
  have hdrop := drop_chunk hc l
  unfold pieces
  rw [hdiv, List.range_succ_eq_map, List.map_cons, List.map_map]
  congr 1
  · simp [← hc]
  · refine List.map_congr_left fun i _ => ?_
    simp only [Function.comp_apply, Nat.succ_eq_add_one, hdrop]

end Chunks

/-! ### Loops that can be run backwards -/

/-- If the body of a loop is an involution at every index, running the loop backwards over the
same indices undoes it. -/
theorem foldl_reverse_cancel {β ι : Type*} {f : β → ι → β} (hf : ∀ b i, f (f b i) i = b)
    (l : List ι) (b : β) : l.reverse.foldl f (l.foldl f b) = b := by
  induction l generalizing b with
  | nil => rfl
  | cons i l ih => rw [List.foldl_cons, List.reverse_cons, List.foldl_append, ih]; exact hf b i

section Swap

variable {α : Type*}

/-- Exchange the elements at positions `i` and `j`; a position outside the list changes nothing. -/
def swapAt (l : List α) (i j : ℕ) : List α :=
  match l[i]?, l[j]? with
  | some a, some b => (l.set i b).set j a
  | _, _ => l

@[simp] theorem swapAt_length (l : List α) (i j : ℕ) : (swapAt l i j).length = l.length := by
  unfold swapAt
  split <;> simp

theorem swapAt_eq {l : List α} {i j : ℕ} (hi : i < l.length) (hj : j < l.length) :
    swapAt l i j = (l.set i l[j]).set j l[i] := by
  simp [swapAt, hi, hj]

/-- Exchanging the same two positions twice is the identity. -/
theorem swapAt_swapAt (l : List α) (i j : ℕ) : swapAt (swapAt l i j) i j = l := by
  by_cases hi : i < l.length
  · by_cases hj : j < l.length
    · rw [swapAt_eq (l := swapAt l i j) (by simpa using hi) (by simpa using hj)]
      refine List.ext_getElem (by simp) ?_
      intro k h₁ h₂
      simp only [swapAt_eq hi hj, List.getElem_set]
      grind
    · simp [swapAt, hi, hj]
  · simp [swapAt, hi]

theorem swapAt_perm (l : List α) (i j : ℕ) : (swapAt l i j).Perm l := by
  by_cases hi : i < l.length
  · by_cases hj : j < l.length
    · rw [swapAt_eq hi hj]
      exact List.set_set_perm hi hj
    · simp [swapAt, hi, hj]
  · simp [swapAt, hi]

/-- A swap, position by position. -/
theorem swapAt_getElem? {n : ℕ} {l : List α} (hl : l.length = n) (i j k : Fin n) :
    (swapAt l i j)[k.val]? = l[(Equiv.swap i j k).val]? := by
  subst hl
  rw [swapAt_eq i.isLt j.isLt, Equiv.swap_apply_def]
  simp only [List.getElem?_set, List.length_set]
  split
  · rename_i hk
    have : k = j := Fin.ext hk.symm
    subst this
    by_cases h : k = i
    · subst h; simp
    · simp [h]
  · rename_i hkj
    by_cases h : i = k
    · subst h; simp
    · simp [Ne.symm h, Fin.ext_iff, Ne.symm hkj, Fin.val_ne_of_ne h]

/-- Where the element at a position comes from after a chain of swaps. -/
def swapChain {n : ℕ} (f : Fin n → Fin n) : List (Fin n) → Equiv.Perm (Fin n)
  | [] => 1
  | i :: is => Equiv.swap i (f i) * swapChain f is

/-- A chain of swaps moves positions, whatever the elements are. -/
theorem foldl_swapAt_getElem? {n : ℕ} (f : Fin n → Fin n) (is : List (Fin n)) {l : List α}
    (hl : l.length = n) (k : Fin n) :
    (is.foldl (fun d (i : Fin n) => swapAt d i (f i)) l)[k.val]? = l[(swapChain f is k).val]? := by
  induction is generalizing l with
  | nil => rfl
  | cons i is ih =>
      rw [List.foldl_cons, ih (by simpa using hl), swapAt_getElem? hl]
      rfl

end Swap

end ListLib
