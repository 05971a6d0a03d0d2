import Mathlib.Tactic.SplitIfs
import StaticSite.Proofs.Listing
import StaticSite.Proofs.Utf8Coding

/-! The order of names. No code of a character begins another one, and the codes grow with the
characters; so texts are ordered as their bytes are, and the entries of a directory stand in the
order of the bytes of their names. -/
namespace StaticSite

open FileSystem

namespace Text

variable {c d : Char} {s t : Text}

namespace Utf8

theorem cons_lt_cons_iff_toNat {a b : UInt8} {x y : Bytes} :
    a :: x < b :: y ↔ a.toNat < b.toNat ∨ a.toNat = b.toNat ∧ x < y := by
  rw [List.cons_lt_cons_iff, UInt8.lt_iff_toNat_lt, ← UInt8.toNat_inj]

theorem encodeChar_append_lt (h : c.toNat < d.toNat) (x y : Bytes) :
    encodeChar c ++ x < encodeChar d ++ y := by
  have hvalid : d.toNat < 0xD800 ∨ 0xDFFF < d.toNat ∧ d.toNat < 0x110000 := d.valid
  -- The bytes are the digits of the character, from the highest on.
  have hdigit (n : Nat) : n / 4096 = n / 64 / 64 ∧ n / 262144 = n / 64 / 64 / 64 := by
    rw [Nat.div_div_eq_div_mul, Nat.div_div_eq_div_mul]
    exact ⟨rfl, rfl⟩
  simp only [encodeChar, hdigit]
  split_ifs <;>
    simp only [List.cons_append, List.nil_append, cons_lt_cons_iff_toNat, UInt8.toNat_ofNat',
      toNat_tailByte] <;> omega

end Utf8

theorem append_lt_append_iff {a x y : Bytes} : a ++ x < a ++ y ↔ x < y := by
  induction a with
  | nil => rfl
  | cons b a ih => simp [ih]

theorem less_iff_encode_lt : less s t = true ↔ Utf8.encode s < Utf8.encode t := by
  induction s generalizing t with
  | nil =>
    cases t with
    | nil => simp [less, Utf8.encode]
    | cons d t =>
      refine iff_of_true rfl ?_
      rw [Utf8.encode_cons]
      cases hcode : Utf8.encodeChar d with
      | nil => exact absurd hcode (Utf8.encodeChar_ne_nil d)
      | cons b bytes => exact List.nil_lt_cons b _
  | cons c s ih =>
    cases t with
    | nil => simp [less, Utf8.encode]
    | cons d t =>
      rw [less, Utf8.encode_cons, Utf8.encode_cons]
      rcases Nat.lt_trichotomy c.toNat d.toNat with hlt | heq | hgt
      · exact iff_of_true (by simp [hlt]) (Utf8.encodeChar_append_lt hlt _ _)
      · obtain rfl : c = d := Char.toNat_inj.1 heq
        rw [append_lt_append_iff, ← ih]
        simp
      · have hne : c ≠ d := fun he => by simp [he] at hgt
        refine iff_of_false (by simp [Nat.not_lt_of_lt hgt, hne])
          (List.lt_asymm (Utf8.encodeChar_append_lt hgt _ _))

end Text

theorem FileSystem.WellFormed.pairwise_entries {fs : FileSystem} (h : fs.WellFormed) (p : Place) :
    (fs.entries p).Pairwise fun a b => Text.Utf8.encode a.1 < Text.Utf8.encode b.1 := by
  have hle {a b : Text × Node} :
      (!Text.less b.1 a.1) = true ↔ Text.Utf8.encode a.1 ≤ Text.Utf8.encode b.1 := by
    rw [Bool.not_eq_true', ← Bool.not_eq_true, Text.less_iff_encode_lt]
    exact List.not_lt
  have hsorted : (fs.entries p).Pairwise fun a b => (!Text.less b.1 a.1) = true := by
    refine List.pairwise_mergeSort (fun a b c hab hbc => ?_) (fun a b => ?_) _
    · exact hle.2 (List.le_trans (hle.1 hab) (hle.1 hbc))
    · rw [Bool.or_eq_true, hle, hle]
      exact List.le_total _ _
  refine (hsorted.and (h.nodup_entries p)).imp_of_mem fun {a b} ha hb hab => ?_
  have hat := h.at?_of_mem (by simp) (mem_entries.1 ha)
  have hat' := h.at?_of_mem (by simp) (mem_entries.1 hb)
  refine Std.lt_of_le_of_ne (hle.1 hab.1) fun heq => hab.2 ?_
  have hname := Text.Utf8.encode_inj heq
  rw [hname, hat', Option.some.injEq] at hat
  exact Prod.ext hname hat.symm

end StaticSite
