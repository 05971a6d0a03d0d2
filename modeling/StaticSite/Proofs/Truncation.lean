import StaticSite.Log
import StaticSite.Proofs.PathNames
import StaticSite.Proofs.Utf8Coding

/-! Where a line of the log is cut. Of its message the longest start is kept that fits into the
width. In bytes that is what is left if one goes back from the width to the nearest place between
two characters. -/
namespace StaticSite

namespace Text.Utf8

variable {bytes : Bytes} {t : Text} {c : Char} {i j : Nat}

/-- Whether a place in some bytes is their end, or has a byte behind it that begins a character. -/
def isBoundary (bytes : Bytes) (i : Nat) : Bool :=
  match bytes[i]? with
  | some b => !isTail b
  | none => i == bytes.length

/-- The nearest boundary that is no further than `i`, or the beginning. -/
def boundaryBefore (bytes : Bytes) : Nat → Nat
  | 0 => 0
  | i + 1 => if isBoundary bytes (i + 1) then i + 1 else boundaryBefore bytes i

/-- Bytes that go beyond a limit are cut at the nearest boundary before it. -/
def cut (bytes : Bytes) (limit : Nat) : Bytes :=
  if bytes.length ≤ limit then bytes else bytes.take (boundaryBefore bytes limit)

theorem boundaryBefore_le (bytes : Bytes) (i : Nat) : boundaryBefore bytes i ≤ i := by
  induction i with
  | zero => exact Nat.le_refl 0
  | succ i ih =>
    rw [boundaryBefore]
    split
    · exact Nat.le_refl _
    · exact Nat.le_succ_of_le ih

theorem isBoundary_boundaryBefore (bytes : Bytes) (i : Nat) :
    boundaryBefore bytes i = 0 ∨ isBoundary bytes (boundaryBefore bytes i) = true := by
  induction i with
  | zero => exact .inl rfl
  | succ i ih =>
    rw [boundaryBefore]
    split
    next h => exact .inr h
    next => exact ih

theorem le_boundaryBefore (hle : j ≤ i) (h : isBoundary bytes j = true) :
    j ≤ boundaryBefore bytes i := by
  induction i with
  | zero => simpa [boundaryBefore] using hle
  | succ i ih =>
    rw [boundaryBefore]
    split
    next => exact hle
    next hnot =>
      have hne : j ≠ i + 1 := fun heq => hnot (heq ▸ h)
      exact ih (by omega)

theorem exists_encodeChar (c : Char) :
    ∃ lead tails, encodeChar c = lead :: tails ∧ isTail lead = false ∧
      ∀ b ∈ tails, isTail b = true := by
  have hvalid : c.toNat < 0xD800 ∨ 0xDFFF < c.toNat ∧ c.toNat < 0x110000 := c.valid
  have hlead {n : Nat} (h : n < 0x80 ∨ 0xBF < n) (hbyte : n < 256) :
      isTail (UInt8.ofNat n) = false := by
    rw [Bool.eq_false_iff, ne_eq, isTail_iff, UInt8.toNat_ofNat_of_lt' hbyte]
    omega
  rw [encodeChar]
  split
  · exact ⟨_, _, rfl, hlead (by omega) (by omega), by simp⟩
  split
  · exact ⟨_, _, rfl, hlead (by omega) (by omega), by simp⟩
  split
  · exact ⟨_, _, rfl, hlead (by omega) (by omega), by simp⟩
  · exact ⟨_, _, rfl, hlead (by omega) (by omega), by simp⟩

theorem isBoundary_zero (t : Text) : isBoundary (encode t) 0 = true := by
  cases t with
  | nil => rfl
  | cons c t =>
    obtain ⟨lead, tails, hcode, hlead, -⟩ := exists_encodeChar c
    rw [encode_cons, hcode, isBoundary]
    simp [hlead]

theorem not_isBoundary_encodeChar_append (hpos : 0 < i) (hlt : i < (encodeChar c).length)
    (rest : Bytes) :
    isBoundary (encodeChar c ++ rest) i = false := by
  obtain ⟨lead, tails, hcode, -, htails⟩ := exists_encodeChar c
  obtain ⟨i, rfl⟩ : ∃ k, i = k + 1 := ⟨i - 1, by omega⟩
  rw [hcode, List.length_cons] at hlt
  have hbyte : i < tails.length := by omega
  rw [hcode, isBoundary, List.cons_append, List.getElem?_cons_succ, List.getElem?_append_left hbyte,
    List.getElem?_eq_getElem hbyte]
  simp [htails]

theorem isBoundary_append (a rest : Bytes) (i : Nat) :
    isBoundary (a ++ rest) (a.length + i) = isBoundary rest i := by
  rw [isBoundary, isBoundary, List.getElem?_append_right (by omega), Nat.add_sub_cancel_left,
    List.length_append]
  cases rest[i]? with
  | some b => rfl
  | none => simp

/-- The boundaries in the code of a text are the ends of its starts. -/
theorem isBoundary_encode_iff :
    isBoundary (encode t) i = true ↔ ∃ start, start <+: t ∧ byteLength start = i := by
  constructor
  · intro h
    induction t generalizing i with
    | nil =>
      have hi : i = 0 := by simpa [encode, isBoundary] using h
      exact ⟨[], List.prefix_rfl, hi.symm⟩
    | cons c t ih =>
      by_cases hzero : i = 0
      · exact ⟨[], List.nil_prefix, hzero.symm⟩
      rw [encode_cons] at h
      by_cases hinside : i < (encodeChar c).length
      · rw [not_isBoundary_encodeChar_append (by omega) hinside] at h
        cases h
      · obtain ⟨k, rfl⟩ : ∃ k, i = (encodeChar c).length + k :=
          ⟨i - (encodeChar c).length, by omega⟩
        rw [isBoundary_append] at h
        obtain ⟨start, hstart, hlength⟩ := ih h
        refine ⟨c :: start, List.cons_prefix_cons.2 ⟨rfl, hstart⟩, ?_⟩
        rw [byteLength, hlength, length_encodeChar]
  · rintro ⟨start, ⟨rest, rfl⟩, rfl⟩
    rw [encode_append, byteLength_eq]
    exact (isBoundary_append (encode start) (encode rest) 0).trans (isBoundary_zero rest)

end Text.Utf8

namespace Log

open Text Text.Utf8

variable {kept kept' t topic : Text} {limit : Nat} {c : Char}

/-- The longest start of a text whose characters take no more bytes than a limit. -/
structure LongestStart (kept t : Text) (limit : Nat) : Prop where
  start : kept <+: t
  fits : byteLength kept ≤ limit
  longest : ∀ start, start <+: t → byteLength start ≤ limit → start <+: kept

theorem LongestStart.unique (h : LongestStart kept t limit) (h' : LongestStart kept' t limit) :
    kept = kept' :=
  (h'.longest kept h.start h.fits).eq_of_length_le (h.longest kept' h'.start h'.fits).length_le

theorem truncate_longest (t : Text) (limit : Nat) : LongestStart (truncate t limit) t limit := by
  induction t generalizing limit with
  | nil => exact ⟨List.prefix_rfl, Nat.zero_le _, fun _ h _ => h⟩
  | cons c t ih =>
    rw [truncate]
    split
    next hfits =>
      have hrest := ih (limit - c.utf8Size)
      refine ⟨List.cons_prefix_cons.2 ⟨rfl, hrest.start⟩, ?_, fun start hstart hle => ?_⟩
      · have hle := hrest.fits
        rw [byteLength]
        omega
      · rcases List.prefix_cons_iff.1 hstart with rfl | ⟨more, rfl, hmore⟩
        · exact List.nil_prefix
        · rw [byteLength] at hle
          exact List.cons_prefix_cons.2 ⟨rfl, hrest.longest more hmore (by omega)⟩
    next hnot =>
      refine ⟨List.nil_prefix, Nat.zero_le _, fun start hstart hle => ?_⟩
      rcases List.prefix_cons_iff.1 hstart with rfl | ⟨more, rfl, -⟩
      · exact List.prefix_rfl
      · rw [byteLength] at hle
        omega

theorem truncate_of_wide (h : limit < c.utf8Size) (t : Text) : truncate (c :: t) limit = [] := by
  rw [truncate, if_neg (by omega)]

theorem truncate_eq_self_iff : truncate t limit = t ↔ byteLength t ≤ limit := by
  have hlongest := truncate_longest t limit
  constructor
  · intro h
    exact h ▸ hlongest.fits
  · intro h
    exact hlongest.start.eq_of_length_le (hlongest.longest t List.prefix_rfl h).length_le

theorem truncate_truncate (t : Text) (m n : Nat) :
    truncate (truncate t m) n = truncate t (min m n) := by
  have hm := truncate_longest t m
  have hn := truncate_longest (truncate t m) n
  refine LongestStart.unique ⟨hn.start.trans hm.start, ?_,
    fun start hstart hle => ?_⟩ (truncate_longest t (min m n))
  · exact Nat.le_min.2 ⟨(byteLength_le_of_sublist hn.start.sublist).trans hm.fits, hn.fits⟩
  · obtain ⟨hlem, hlen⟩ := Nat.le_min.1 hle
    exact hn.longest start (hm.longest start hstart hlem) hlen

theorem cut_encode (t : Text) (limit : Nat) : cut (encode t) limit = encode (truncate t limit) := by
  have hlongest := truncate_longest t limit
  rw [cut, ← byteLength_eq]
  split
  next hfits => rw [truncate_eq_self_iff.2 hfits]
  next =>
    have hplace : boundaryBefore (encode t) limit = byteLength (truncate t limit) := by
      refine Nat.le_antisymm ?_ ?_
      · rcases isBoundary_boundaryBefore (encode t) limit with hzero | hboundary
        · rw [hzero]
          exact Nat.zero_le _
        · obtain ⟨start, hstart, hlength⟩ := isBoundary_encode_iff.1 hboundary
          rw [← hlength]
          refine byteLength_le_of_sublist (hlongest.longest start hstart ?_).sublist
          exact hlength ▸ boundaryBefore_le (encode t) limit
      · exact le_boundaryBefore hlongest.fits (isBoundary_encode_iff.2 ⟨_, hlongest.start, rfl⟩)
    rw [hplace, byteLength_eq]
    exact (List.prefix_iff_eq_take.1 (encode_prefix_iff.2 hlongest.start)).symm

/-! ### What a terminal shows -/

/-- A text without its control sequences, which go from an escape character to a letter. The flag
tells whether the text begins inside of one. -/
def visible : Bool → Text → Text
  | _, [] => []
  | false, c :: t => if c = escape then visible true t else c :: visible false t
  | true, c :: t => visible (!c.isAlpha) t

theorem visible_append (h : escape ∉ topic) (t : Text) :
    visible false (topic ++ t) = topic ++ visible false t := by
  induction topic with
  | nil => rfl
  | cons c topic ih =>
    obtain ⟨hc, htopic⟩ := not_or.1 (List.mem_cons.not.1 h)
    rw [List.cons_append, visible, if_neg (Ne.symm hc), ih htopic, List.cons_append]

theorem visible_color (topic t : Text) :
    visible false ([escape, '[', '1', ';'] ++ (colorOf topic ++ 'm' :: t)) = visible false t := by
  have hdigits : ∃ d e, colorOf topic = [d, e] ∧ d.isAlpha = false ∧ e.isAlpha = false := by
    simp only [colorOf]
    repeat' split
    all_goals exact ⟨_, _, rfl, by decide, by decide⟩
  obtain ⟨d, e, hcolor, hd, he⟩ := hdigits
  rw [hcolor]
  show visible (!d.isAlpha) ([e, 'm'] ++ t) = _
  rw [hd]
  show visible (!e.isAlpha) (['m'] ++ t) = _
  rw [he]
  rfl

/-- A terminal shows the line as it is without colors. -/
theorem visible_onTerminal (l : Line) (width : Nat) (h : escape ∉ l.topic) :
    visible false (l.onTerminal width) = visible false (l.fit width ++ ['\n']) := by
  have hlabel : escape ∉ l.label := by
    simp only [Line.label, List.mem_append, List.mem_cons, List.not_mem_nil, or_false, not_or]
    exact ⟨⟨by decide, h⟩, by decide⟩
  have hclear (t : Text) : visible false ([escape, '[', 'K'] ++ t) = visible false t := rfl
  have hreset (t : Text) : visible false ([escape, '[', '0', 'm'] ++ t) = visible false t := rfl
  simp only [Line.onTerminal, Line.coloredLabel, Line.fit, List.append_assoc]
  rw [hclear, List.cons_append (a := 'm'), visible_color, visible_append hlabel, hreset,
    visible_append hlabel]

/-- A line that has room for its label has no more bytes than the width, and keeps the longest start
of its message that fits; a terminal shows the same line. At every limit the bytes of a text are cut
between two characters, so that they are the code of what is kept; a text is kept as it is exactly
if it fits, nothing is kept if not even the first character fits, and of two cuts the shorter one is
left. -/
theorem fit_keeps_longest (l : Line) (width : Nat) (h : byteLength l.topic + 3 ≤ width) :
    (encode (l.fit width)).length ≤ width ∧
    (∃ kept, l.fit width = '[' :: l.topic ++ [']', ' '] ++ kept ∧
      LongestStart kept l.message (width - (byteLength l.topic + 3))) ∧
    (escape ∉ l.topic → visible false (l.onTerminal width) =
      visible false (l.fit width ++ ['\n'])) ∧
    (∀ t limit, decode (cut (encode t) limit) = .ok (truncate t limit)) ∧
    (∀ t limit, truncate t limit = t ↔ byteLength t ≤ limit) ∧
    (∀ c t limit, limit < c.utf8Size → truncate (c :: t) limit = []) ∧
    ∀ t m n, truncate (truncate t m) n = truncate t (min m n) := by
  have hkept : LongestStart (truncate l.message (width - (byteLength l.topic + 3))) l.message _ :=
    truncate_longest _ _
  have hfit : l.fit width =
      '[' :: l.topic ++ [']', ' '] ++ truncate l.message (width - (byteLength l.topic + 3)) := by
    simp [Line.fit, Line.label, labelLength]
  refine ⟨?_, ⟨_, hfit, hkept⟩, visible_onTerminal l width,
    fun t limit => ?_, fun t limit => truncate_eq_self_iff, fun c t limit hwide =>
      truncate_of_wide hwide t, truncate_truncate⟩
  · have hle := hkept.fits
    have hends : byteLength ('[' :: l.topic ++ [']', ' ']) = byteLength l.topic + 3 := by
      rw [byteLength_append, byteLength, show byteLength [']', ' '] = 2 from rfl,
        show '['.utf8Size = 1 from rfl]
      omega
    rw [← byteLength_eq, hfit, byteLength_append, hends]
    omega
  · rw [cut_encode, decode_encode]

/-- Of the message two characters fit. The third has three bytes, and there is room for two. -/
theorem greeting_cut :
    (Line.mk "build".toList "aé你b".toList).fit 13 = "[build] aé".toList ∧
      (encode ((Line.mk "build".toList "aé你b".toList).fit 13)).length ≤ 13 := by
  obtain ⟨hbytes, ⟨kept, hfit, hlongest⟩, -⟩ :=
    fit_keeps_longest (Line.mk "build".toList "aé你b".toList) 13 (by decide)
  have hkept : kept = "aé".toList := hlongest.unique (truncate_longest "aé你b".toList 5)
  exact ⟨by rw [hfit, hkept]; rfl, hbytes⟩

end Log
end StaticSite
