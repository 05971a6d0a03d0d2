import StaticSite.Proofs.TagGrammar
import StaticSite.Proofs.Verbatim

/-! The parts of a text. A text that begins with the fence has a block, which goes to the next fence
wherever that stands, then one line end at most, and then its body. These parts are the only ones,
and nothing is lost of the body; what comes of the block is a matter of the block alone. -/
namespace StaticSite

namespace Text

variable {needle a b : Text} {c : Char}

theorem prefix_drop_append {i : Nat} (hi : i ≤ a.length) (b : Text) :
    needle <+: (a ++ needle ++ b).drop i ↔ needle <+: (a ++ needle).drop i := by
  have hdrop : (a ++ needle ++ b).drop i = (a ++ needle).drop i ++ b := by
    rw [List.drop_append_of_le_length]
    rw [List.length_append]
    omega
  have hfits : needle.length ≤ ((a ++ needle).drop i).length := by
    rw [List.length_drop, List.length_append]
    omega
  rw [hdrop]
  constructor
  · intro h
    exact List.prefix_of_prefix_length_le h (List.prefix_append _ b) hfits
  · intro h
    exact h.trans (List.prefix_append _ b)

theorem prefix_of_append_cons (hc : c ∉ needle) (h : needle <+: a ++ c :: b) : needle <+: a := by
  cases Nat.lt_or_ge a.length needle.length with
  | inl hlong =>
    have hover : a ++ [c] <+: needle := by
      refine List.prefix_of_prefix_length_le ⟨b, ?_⟩ h (by simpa using hlong)
      simp
    exact absurd (hover.subset (by simp)) hc
  | inr hfits => exact List.prefix_of_prefix_length_le h (List.prefix_append _ _) hfits

theorem infix_append_cons_iff (hc : c ∉ needle) :
    needle <:+: a ++ c :: b ↔ needle <:+: a ∨ needle <:+: b := by
  constructor
  · intro h
    induction a with
    | nil =>
      cases List.infix_cons_iff.1 h with
      | inl hbegins => exact .inl (prefix_of_append_cons hc hbegins).isInfix
      | inr hoccurs => exact .inr hoccurs
    | cons d a ih =>
      rw [List.cons_append, List.infix_cons_iff] at h
      cases h with
      | inl hbegins => exact .inl (prefix_of_append_cons (a := d :: a) hc hbegins).isInfix
      | inr hoccurs =>
        cases ih hoccurs with
        | inl hbefore => exact .inl (List.infix_cons hbefore)
        | inr hafter => exact .inr hafter
  · rintro (h | h)
    · exact h.trans (List.prefix_append _ _).isInfix
    · exact (List.infix_cons h).trans (List.suffix_append _ _).isInfix

end Text

namespace FrontMatter

theorem message_of_ofMapping {pairs : List (Yaml.Value × Yaml.Value)} {reason : Malformed}
    (h : ofMapping pairs = .error reason) :
    reason.message ≠ "unterminated metadata block".toList := by
  have hkey {key : Yaml.Value} (he : keyText key = .error reason) :
      reason.message ≠ "unterminated metadata block".toList := by
    have hreason : reason = .unsupportedKey key := by
      unfold keyText at he
      split at he <;> cases he
      rfl
    subst hreason
    intro heq
    have hbegins : "unsupported metadata key: ".toList <+: "unterminated metadata block".toList :=
      ⟨_, heq⟩
    exact absurd hbegins (by decide)
  induction pairs with
  | nil => cases h
  | cons pair rest ih =>
    rw [ofMapping] at h
    cases hk : keyText pair.1 with
    | error e =>
      rw [hk] at h
      cases h
      exact hkey hk
    | ok key =>
      rw [hk] at h
      cases hrest : ofMapping rest with
      | error e =>
        rw [hrest] at h
        cases h
        exact ih hrest
      | ok entries => simp [hrest, Except.map] at h

theorem message_of_ofBlock {block : Text} {reason : Malformed} (h : ofBlock block = .error reason) :
    reason.message ≠ "unterminated metadata block".toList := by
  unfold ofBlock at h
  split at h
  · cases h
  · split at h
    · have hreason := Except.error.inj h
      subst hreason
      show "invalid metadata block".toList ≠ "unterminated metadata block".toList
      decide
    · cases h
    next pairs hpairs =>
      cases hmapping : ofMapping pairs with
      | error e =>
        rw [hmapping] at h
        cases h
        exact message_of_ofMapping hmapping
      | ok entries => simp [hmapping, Except.map] at h
    · cases h
      decide

theorem exists_text {block key x : Text}
    (h : (ofBlock block).toOption.bind (·.text? key) = some x) :
    ∃ metadata, ofBlock block = .ok metadata ∧ metadata.text? key = some x := by
  cases hblock : ofBlock block with
  | error reason => simp [hblock, Except.toOption] at h
  | ok metadata => exact ⟨metadata, rfl, by simpa [hblock, Except.toOption] using h⟩

end FrontMatter

namespace Document

variable {t block ending body rest : Text}

/-- That a fence right after a block is the first: none begins in the block, nor in it and the fence
together. -/
def Clear (block : Text) : Prop := ∀ i < block.length, ¬fence <+: (block ++ fence).drop i

instance (block : Text) : Decidable (Clear block) :=
  inferInstanceAs (Decidable (∀ i < block.length, ¬fence <+: (block ++ fence).drop i))

theorem eq_dash_of_mem {c : Char} (h : c ∈ fence) : c = '-' := by simpa [fence] using h

theorem clear_iff : Clear block ↔ ¬fence <:+: block ∧ block.getLast? ≠ some '-' := by
  constructor
  · intro h
    constructor
    · rintro ⟨a, b, rfl⟩
      refine h a.length (by simp [fence]) ⟨b ++ fence, ?_⟩
      simp
    · intro hlast
      obtain ⟨a, rfl⟩ := List.getLast?_eq_some_iff.1 hlast
      refine h a.length (by simp) ⟨['-'], ?_⟩
      simp [fence]
  · rintro ⟨hoccurs, hlast⟩ i hi hbegins
    have hne : block.drop i ≠ [] := by simpa using hi
    rw [List.drop_append_of_le_length hi.le] at hbegins
    cases Nat.lt_or_ge (block.drop i).length fence.length with
    | inl hshort =>
      -- the fence begins in the block and goes on after it, so the block ends in a dash
      have hover : block.drop i <+: fence :=
        List.prefix_of_prefix_length_le (List.prefix_append _ _) hbegins hshort.le
      have hdash : (block.drop i).getLast hne = '-' :=
        eq_dash_of_mem (hover.subset (List.getLast_mem hne))
      refine hlast ?_
      rw [← List.take_append_drop i block, List.getLast?_append_of_ne_nil _ hne,
        List.getLast?_eq_some_getLast hne, hdash]
    | inr hfits =>
      have hin : fence <+: block.drop i :=
        List.prefix_of_prefix_length_le hbegins (List.prefix_append _ _) hfits
      exact hoccurs (hin.isInfix.trans (List.drop_suffix i block).isInfix)

/-- Only the last line of a block can run into the fence after it. -/
theorem clear_append_feed_iff {line : Text} : Clear (line ++ '\n' :: rest) ↔ ¬fence <:+: line ∧
    Clear rest := by
  have hlast : (line ++ '\n' :: rest).getLast? = some '-' ↔ rest.getLast? = some '-' := by
    rw [List.getLast?_append_of_ne_nil _ (by simp), List.getLast?_cons]
    cases hrest : rest.getLast? <;> simp
  rw [clear_iff, clear_iff, Text.infix_append_cons_iff (by decide), not_or, Ne, hlast, and_assoc]

/-- The line end at the start of what follows a fence; it is empty only if there is none. -/
inductive Ends : Text → Text → Prop
  | carriage (body : Text) : Ends ['\r', '\n'] body
  | feed (body : Text) : Ends ['\n'] body
  | none {body : Text} (hcarriage : ¬['\r', '\n'] <+: body) (hfeed : ¬['\n'] <+: body) :
      Ends [] body

/-- The parts of a text with a block that is closed. -/
structure Parts (t block ending body : Text) : Prop where
  text : t = fence ++ block ++ fence ++ ending ++ body
  clear : Clear block
  ends : Ends ending body

def ofParts (block body : Text) : Except RenderError Document :=
  match FrontMatter.ofBlock block with
  | .error reason => .error (.malformed reason)
  | .ok metadata => .ok ⟨some metadata, body⟩

theorem Ends.dropLineEnd (h : Ends ending body) : dropLineEnd (ending ++ body) = body := by
  cases h with
  | carriage | feed => rfl
  | none hcarriage hfeed =>
    unfold Document.dropLineEnd
    split
    next t heq => exact absurd ⟨t, heq.symm⟩ hcarriage
    next t heq => exact absurd ⟨t, heq.symm⟩ hfeed
    · rfl

theorem exists_ends (rest : Text) :
    ∃ ending, Ends ending (dropLineEnd rest) ∧ rest = ending ++ dropLineEnd rest := by
  unfold dropLineEnd
  split
  · exact ⟨_, .carriage _, rfl⟩
  · exact ⟨_, .feed _, rfl⟩
  next hcarriage hfeed =>
    refine ⟨[], .none ?_ ?_, rfl⟩
    · rintro ⟨t, rfl⟩
      exact hcarriage t rfl
    · rintro ⟨t, rfl⟩
      exact hfeed t rfl

theorem cut?_fence_eq_some_iff {after : Text} :
    Text.cut? fence after = some (block, rest) ↔ after = block ++ fence ++ rest ∧ Clear block := by
  rw [Text.cut?_eq_some_iff]
  constructor
  · rintro ⟨rfl, hfirst⟩
    exact ⟨rfl, fun i hi hbegins => hfirst i hi ((Text.prefix_drop_append hi.le rest).2 hbegins)⟩
  · rintro ⟨rfl, hclear⟩
    exact ⟨rfl, fun i hi hbegins => hclear i hi ((Text.prefix_drop_append hi.le rest).1 hbegins)⟩

theorem opening_eq_unclosed_iff :
    opening t = .unclosed ↔ ∃ rest, t = fence ++ rest ∧ ¬fence <:+: rest := by
  rw [opening]
  cases hafter : Text.after? fence t with
  | none =>
    refine iff_of_false (by simp) ?_
    rintro ⟨rest, rfl, -⟩
    exact Text.after?_eq_none_iff.1 hafter (List.prefix_append _ _)
  | some after =>
    obtain rfl := Text.eq_of_after? hafter
    simp only [List.append_right_inj, exists_eq_left', ← Text.cut?_eq_none_iff]
    cases Text.cut? fence after <;> simp

theorem opening_eq_fenced_iff :
    opening t = .fenced block rest ↔ t = fence ++ block ++ fence ++ rest ∧ Clear block := by
  rw [opening]
  cases hafter : Text.after? fence t with
  | none =>
    refine iff_of_false (by simp) ?_
    rintro ⟨rfl, -⟩
    exact Text.after?_eq_none_iff.1 hafter ⟨block ++ fence ++ rest, by simp⟩
  | some after =>
    obtain rfl := Text.eq_of_after? hafter
    have hcut : Text.cut? fence after = some (block, rest) ↔ after = block ++ fence ++ rest ∧
        Clear block := cut?_fence_eq_some_iff
    simp only [List.append_assoc, List.append_right_inj] at hcut ⊢
    rw [← hcut]
    cases Text.cut? fence after <;> simp [Prod.ext_iff]

theorem parts_iff : Parts t block ending body ↔ opening t = .fenced block (ending ++ body) ∧
    Ends ending body := by
  rw [opening_eq_fenced_iff, ← List.append_assoc]
  exact ⟨fun h => ⟨⟨h.text, h.clear⟩, h.ends⟩, fun h => ⟨h.1.1, h.1.2, h.2⟩⟩

theorem ofText_of_fenced (h : opening t = .fenced block rest) :
    ofText t = ofParts block (dropLineEnd rest) := by
  rw [ofText, h]
  rfl

theorem Parts.ofText (h : Parts t block ending body) : ofText t = ofParts block body := by
  obtain ⟨hopening, hends⟩ := parts_iff.1 h
  rw [ofText_of_fenced hopening, hends.dropLineEnd]

theorem Parts.unique {block' ending' body' : Text} (h : Parts t block ending body)
    (h' : Parts t block' ending' body') :
    block' = block ∧ ending' = ending ∧ body' = body := by
  obtain ⟨hopening, hends⟩ := parts_iff.1 h
  obtain ⟨hopening', hends'⟩ := parts_iff.1 h'
  rw [hopening, Opening.fenced.injEq] at hopening'
  obtain ⟨rfl, hrest⟩ := hopening'
  have hbody : body = body' := by rw [← hends.dropLineEnd, hrest, hends'.dropLineEnd]
  subst hbody
  exact ⟨rfl, (List.append_cancel_right hrest).symm, rfl⟩

theorem exists_parts_iff : (∃ block ending body, Parts t block ending body) ↔
    ∃ rest, t = fence ++ rest ∧ fence <:+: rest := by
  constructor
  · rintro ⟨block, ending, body, h⟩
    exact ⟨block ++ fence ++ (ending ++ body), by simp [h.text], List.infix_append _ _ _⟩
  · rintro ⟨rest, rfl, hoccurs⟩
    cases hcut : Text.cut? fence rest with
    | none => exact absurd hoccurs (Text.cut?_eq_none_iff.1 hcut)
    | some cut =>
      obtain ⟨block, rest⟩ := cut
      obtain ⟨rfl, hclear⟩ := cut?_fence_eq_some_iff.1 hcut
      obtain ⟨ending, hends, hrest⟩ := exists_ends rest
      refine ⟨block, ending, dropLineEnd rest, ?_, hclear, hends⟩
      rw [List.append_assoc _ ending, ← hrest]
      simp

theorem ofText_eq_none_iff : ofText t = .ok ⟨none, body⟩ ↔ ¬fence <+: t ∧ body = t := by
  by_cases hfence : fence <+: t
  · exact iff_of_false (ofText_of_fence hfence body) fun h => h.1 hfence
  · rw [ofText, opening_eq_plain_iff.2 hfence]
    simp [hfence, eq_comm]

theorem ofText_eq_unterminated_iff :
    (∃ reason, ofText t = .error (.malformed reason) ∧
      reason.message = "unterminated metadata block".toList) ↔
      ∃ rest, t = fence ++ rest ∧ ¬fence <:+: rest := by
  rw [← opening_eq_unclosed_iff]
  cases hopening : opening t with
  | plain => simp [ofText, hopening]
  | unclosed => exact iff_of_true ⟨.unterminatedBlock, by rw [ofText, hopening], rfl⟩ rfl
  | fenced block rest =>
    refine iff_of_false ?_ (by simp)
    rintro ⟨reason, htext, hmessage⟩
    rw [ofText_of_fenced hopening, ofParts] at htext
    cases hblock : FrontMatter.ofBlock block with
    | error reason' =>
      rw [hblock] at htext
      cases htext
      exact FrontMatter.message_of_ofBlock hblock hmessage
    | ok metadata => simp [hblock] at htext

/-- Every text is one of three. Without a fence at its start it has no metadata, and is its own
body. With a fence at its start and no other, it is refused as not terminated, and nothing else is.
Otherwise it has parts, and no two divisions into them; its metadata, or the error, comes of the
block alone, and its body is the last part as it is. -/
theorem ofText_partition (t : Text) :
    (∀ body, ofText t = .ok ⟨none, body⟩ ↔ ¬fence <+: t ∧ body = t) ∧
    ((∃ reason, ofText t = .error (.malformed reason) ∧
      reason.message = "unterminated metadata block".toList) ↔
      ∃ rest, t = fence ++ rest ∧ ¬fence <:+: rest) ∧
    ((∃ block ending body, Parts t block ending body) ↔
      ∃ rest, t = fence ++ rest ∧ fence <:+: rest) ∧
    ∀ block ending body, Parts t block ending body →
      ofText t = ofParts block body ∧
        ∀ block' ending' body', Parts t block' ending' body' → block' = block ∧ ending' = ending ∧
          body' = body := by
  refine ⟨fun _ => ofText_eq_none_iff, ofText_eq_unterminated_iff, exists_parts_iff, ?_⟩
  intro block ending body h
  exact ⟨h.ofText, fun _ _ _ h' => h.unique h'⟩

/-- A fence of four dashes, and another that is glued to the text: the fourth dash is of the block,
and the later fences are of the body. -/
def gluedText : Text := "----a: x---\r\n\n---b---".toList

theorem gluedText_parts : Parts gluedText "-a: x".toList ['\r', '\n'] "\n---b---".toList :=
  ⟨by decide, by decide, .carriage _⟩

theorem gluedText_divided :
    Parts gluedText "-a: x".toList ['\r', '\n'] "\n---b---".toList ∧
      ∃ metadata, ofText gluedText = .ok ⟨some metadata, "\n---b---".toList⟩ ∧
        metadata.text? "-a".toList = some "x".toList := by
  obtain ⟨-, -, -, hparts⟩ := ofText_partition gluedText
  obtain ⟨htext, -⟩ := hparts _ _ _ gluedText_parts
  have hread : (FrontMatter.ofBlock "-a: x".toList).toOption.bind (·.text? "-a".toList) =
      some "x".toList := by decide +kernel
  obtain ⟨metadata, hblock, hvalue⟩ := FrontMatter.exists_text hread
  refine ⟨gluedText_parts, metadata, ?_, hvalue⟩
  rw [htext, ofParts, hblock]

end Document
end StaticSite
