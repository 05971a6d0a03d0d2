import StaticSite.Proofs.Spacing

/-! Documents as they are mostly written, with each fence on a line of its own. The search for the
end of a block knows no lines: it stops at the first fence, wherever that stands in a line. So a
document is read as it is written exactly if there is no fence inside its lines; otherwise the first
of them ends the block, and what is left of it is body. -/
namespace StaticSite

def Text.unlines (lines : List Text) : Text := lines.flatMap (· ++ ['\n'])

namespace Document

variable {lines above below : List Text} {line before after block body rest : Text}
  {document : Document}

/-- A document with its fences on lines of their own. -/
def written (lines : List Text) (body : Text) : Text :=
  fence ++ '\n' :: Text.unlines lines ++ fence ++ '\n' :: body

theorem spaced_unlines_append (h : Spaced below rest) :
    Spaced (above ++ below) (Text.unlines above ++ rest) := by
  induction above with
  | nil => exact h
  | cons l above ih =>
    have hline : Spaced (l :: (above ++ below))
        ([] ++ l ++ [] ++ ['\n'] ++ (Text.unlines above ++ rest)) := .line .nil .nil .feed ih
    simpa [Text.unlines] using hline

theorem spaced_unlines (lines : List Text) : Spaced lines (Text.unlines lines) := by
  have h : Spaced (lines ++ []) (Text.unlines lines ++ []) := spaced_unlines_append (.tail .nil)
  simpa using h

theorem ofText_of_spaced (h : Spaced lines block) (hfeed : ∀ l ∈ lines, '\n' ∉ l)
    (hnone : ∀ l ∈ lines, ¬fence <:+: l) (rest : Text) :
    ofText (fence ++ '\n' :: block ++ fence ++ rest) = ofParts (Text.unlines lines)
    (dropLineEnd rest) := by
  -- the rest of the line of the opening fence is of the block too, as a blank line
  have hblock : Spaced lines ('\n' :: block) := .blank .nil .feed h
  have hopening : opening (fence ++ '\n' :: block ++ fence ++ rest) =
      .fenced ('\n' :: block) rest :=
    opening_eq_fenced_iff.2 ⟨rfl, hblock.clear hnone⟩
  have hnormalize : FrontMatter.normalize ('\n' :: block) =
      FrontMatter.normalize (Text.unlines lines) := by
    rw [hblock.normalize hfeed, (spaced_unlines lines).normalize hfeed]
  rw [ofText_of_fenced hopening, ofParts_congr hnormalize]

theorem ofText_written_of_clear (hfeed : ∀ l ∈ lines, '\n' ∉ l) (hnone : ∀ l ∈ lines, ¬fence <:+: l)
    (body : Text) :
    ofText (written lines body) = ofParts (Text.unlines lines) body :=
  ofText_of_spaced (spaced_unlines lines) hfeed hnone ('\n' :: body)

theorem ofText_written_of_fence
    (hfeed : ∀ l ∈ above ++ (before ++ fence ++ after) :: below, '\n' ∉ l)
    (hnone : ∀ l ∈ above, ¬fence <:+: l) (hclear : Clear before) (body : Text) :
    ofText (written (above ++ (before ++ fence ++ after) :: below) body) =
      ofParts (Text.unlines (above ++ [before]))
      (dropLineEnd (after ++ '\n' :: Text.unlines below ++ fence ++ '\n' :: body)) := by
  obtain ⟨hoccurs, hdash⟩ := clear_iff.1 hclear
  have hlast : Spaced [before] ([] ++ before ++ []) := .last .nil .nil (by simpa using hdash)
  have hspaced : Spaced (above ++ [before]) (Text.unlines above ++ ([] ++ before ++ [])) :=
    spaced_unlines_append hlast
  have hbefore : '\n' ∉ before :=
    fun hmem => hfeed (before ++ fence ++ after) (by simp) (by simp [hmem])
  have hfeed' : ∀ l ∈ above ++ [before], '\n' ∉ l :=
    List.forall_mem_append.2 ⟨fun l hl => hfeed l (List.mem_append_left _ hl),
      by simpa using hbefore⟩
  have hnone' : ∀ l ∈ above ++ [before], ¬fence <:+: l :=
    List.forall_mem_append.2 ⟨hnone, by simpa using hoccurs⟩
  have htext := ofText_of_spaced hspaced hfeed' hnone'
    (after ++ '\n' :: Text.unlines below ++ fence ++ '\n' :: body)
  rw [← htext]
  simp [written, Text.unlines]

theorem length_le_dropLineEnd (rest : Text) : rest.length ≤ (dropLineEnd rest).length + 2 := by
  unfold dropLineEnd
  split <;> simp

theorem exists_first_fence (h : ¬∀ l ∈ lines, ¬fence <:+: l) :
    ∃ above before after below, lines = above ++ (before ++ fence ++ after) :: below ∧
      (∀ l ∈ above, ¬fence <:+: l) ∧ Clear before := by
  induction lines with
  | nil => exact absurd (by simp) h
  | cons line lines ih =>
    cases hcut : Text.cut? fence line with
    | some cut =>
      obtain ⟨before, after⟩ := cut
      obtain ⟨rfl, hclear⟩ := cut?_fence_eq_some_iff.1 hcut
      exact ⟨[], before, after, lines, rfl, by simp, hclear⟩
    | none =>
      have hline := Text.cut?_eq_none_iff.1 hcut
      obtain ⟨above, before, after, below, rfl, hnone, hclear⟩ :=
        ih fun hall => h (List.forall_mem_cons.2 ⟨hline, hall⟩)
      exact ⟨line :: above, before, after, below, rfl, List.forall_mem_cons.2 ⟨hline, hnone⟩,
        hclear⟩

theorem body_of_ofParts (h : ofParts block body = .ok document) : document.body = body := by
  rw [ofParts] at h
  split at h
  · cases h
  · cases h
    rfl

theorem body_eq_iff (hfeed : ∀ l ∈ lines, '\n' ∉ l)
    (h : ofText (written lines body) = .ok document) :
    document.body = body ↔ ∀ l ∈ lines, ¬fence <:+: l := by
  by_cases hnone : ∀ l ∈ lines, ¬fence <:+: l
  · rw [ofText_written_of_clear hfeed hnone] at h
    exact iff_of_true (body_of_ofParts h) hnone
  · refine iff_of_false (fun hbody => ?_) hnone
    obtain ⟨above, before, after, below, rfl, habove, hclear⟩ := exists_first_fence hnone
    rw [ofText_written_of_fence hfeed habove hclear] at h
    -- the rest of the block and the fence after it are left in the body, which is therefore too
    -- long
    have hlong := length_le_dropLineEnd (after ++ '\n' :: Text.unlines below ++ fence ++ '\n' ::
      body)
    rw [← body_of_ofParts h, hbody] at hlong
    simp only [List.length_append, List.length_cons, fence] at hlong
    omega

/-- A document with its fences on lines of their own is read as it is written if no line has a fence
in it: its body is what stands after the closing fence, and its metadata, or the error, is that of
all its lines. Otherwise the first fence in a line ends the block; the lines above it and the part
of its line before it are read, and all that follows is body. So of what can be read at all, the
body is the written one exactly if no line has a fence in it. -/
theorem ofText_written (lines : List Text) (body : Text) (hfeed : ∀ l ∈ lines, '\n' ∉ l) :
    ((∀ l ∈ lines, ¬fence <:+: l) →
      ofText (written lines body) = ofParts (Text.unlines lines) body) ∧
    (∀ above before after below, lines = above ++ (before ++ fence ++ after) :: below →
      (∀ l ∈ above, ¬fence <:+: l) →
      Clear before → ofText (written lines body) =
        ofParts (Text.unlines (above ++ [before]))
        (dropLineEnd (after ++ '\n' :: Text.unlines below ++ fence ++ '\n' :: body))) ∧
    ∀ document, ofText (written lines body) = .ok document →
      (document.body = body ↔ ∀ l ∈ lines, ¬fence <:+: l) := by
  refine ⟨fun hnone => ofText_written_of_clear hfeed hnone body, ?_,
    fun document => body_eq_iff hfeed⟩
  rintro above before after below rfl habove hclear
  exact ofText_written_of_fence hfeed habove hclear body

def dashedLines : List Text := ["a: b--c".toList, "d: e -- f-".toList]

theorem dashedLines_read :
    (∃ metadata, ofText (written dashedLines "---\nx".toList) =
      .ok ⟨some metadata, "---\nx".toList⟩ ∧
      metadata.text? "d".toList = some "e -- f-".toList) ∧
    ofText (written (dashedLines ++ ["g: ---".toList, "h".toList]) []) =
      ofParts (Text.unlines (dashedLines ++ ["g: ".toList])) "h\n---\n".toList := by
  obtain ⟨hclear, -, -⟩ := ofText_written dashedLines "---\nx".toList (by decide)
  obtain ⟨-, hfence, -⟩ := ofText_written (dashedLines ++ ["g: ---".toList, "h".toList]) []
    (by decide)
  have hread : (FrontMatter.ofBlock (Text.unlines dashedLines)).toOption.bind (·.text? "d".toList) =
      some "e -- f-".toList := by
    decide +kernel
  obtain ⟨metadata, hblock, hvalue⟩ := FrontMatter.exists_text hread
  refine ⟨⟨metadata, ?_, hvalue⟩, ?_⟩
  · rw [hclear (by decide), ofParts, hblock]
  · exact hfence dashedLines "g: ".toList [] ["h".toList] (by decide) (by decide) (by decide)

/-- A fence inside a value ends the block, though no line is a fence: the value is cut off there,
and the rest of its line and the closing fence are left in the body. -/
theorem fencedValue_cut :
    (∃ metadata, ofText (written ["a: b --- c".toList] "x".toList) =
      .ok ⟨some metadata, " c\n---\nx".toList⟩ ∧
      metadata.text? "a".toList = some "b".toList) ∧
    ¬∀ (lines : List Text) (body : Text) (document : Document),
      (∀ l ∈ lines, '\n' ∉ l ∧ Text.trim l ≠ fence) →
      ofText (written lines body) = .ok document → document.body = body ∧
        ∃ metadata, FrontMatter.ofBlock (Text.unlines lines) = .ok metadata ∧
          document.metadata = some metadata := by
  have hread : (FrontMatter.ofBlock "\na: b ".toList).toOption.bind (·.text? "a".toList) =
      some "b".toList := by decide +kernel
  obtain ⟨metadata, hblock, hvalue⟩ := FrontMatter.exists_text hread
  have hparts : Parts (written ["a: b --- c".toList] "x".toList) "\na: b ".toList []
      " c\n---\nx".toList :=
    ⟨by decide, by decide, .none (by decide) (by decide)⟩
  have htext : ofText (written ["a: b --- c".toList] "x".toList) =
      .ok ⟨some metadata, " c\n---\nx".toList⟩ := by
    rw [hparts.ofText, ofParts, hblock]
  refine ⟨⟨metadata, htext, hvalue⟩, fun hclaim => ?_⟩
  have hbody : " c\n---\nx".toList = "x".toList :=
    (hclaim ["a: b --- c".toList] "x".toList _ (by decide) htext).1
  exact absurd hbody (by decide)

end Document
end StaticSite
