import StaticSite.Proofs.Fences

/-! White space in a block. A block is read by its lines as they are without the white space around
them, and without those that are blank; so it does not matter how far lines are indented, what
stands behind them, how many blank lines are among them, or which line ends they have. Nor does any
of it make a fence or hide one. -/
namespace StaticSite

namespace Text

variable {t a b line rest : Text} {ts : List Text}

def Blank (t : Text) : Prop := ∀ c ∈ t, isBlank c = true ∧ c ≠ '\n'

instance (t : Text) : Decidable (Blank t) :=
  List.decidableBAll (fun c => isBlank c = true ∧ c ≠ '\n') t

theorem Blank.nil : Blank [] := fun _ hc => absurd hc (by simp)

theorem Blank.carriage : Blank ['\r'] := by
  intro c hc
  obtain rfl := List.mem_singleton.1 hc
  exact ⟨by decide, by decide⟩

theorem Blank.noFeed (h : Blank t) : '\n' ∉ t := fun hfeed => (h _ hfeed).2 rfl

theorem Blank.append (ha : Blank a) (hb : Blank b) :
    Blank (a ++ b) := List.forall_mem_append.2 ⟨ha, hb⟩

theorem Blank.dash_notMem (h : Blank t) : '-' ∉ t := fun hdash => absurd (h _ hdash).1 (by decide)

theorem trimLeft_append_right (hb : Blank b) (t : Text) :
    trimLeft (t ++ b) = if trimLeft t = [] then [] else trimLeft t ++ b := by
  have hnil : b.dropWhile isBlank = [] := List.dropWhile_eq_nil_iff.2 fun c hc => (hb c hc).1
  rw [trimLeft, List.dropWhile_append, hnil, trimLeft]
  simp only [List.isEmpty_iff]

theorem trimRight_append (hb : Blank b) (t : Text) : trimRight (t ++ b) = trimRight t := by
  rw [trimRight, List.reverse_append, List.dropWhile_append_of_pos, trimRight]
  intro c hc
  exact (hb c (List.mem_reverse.1 hc)).1

theorem trim_append (ha : Blank a) (hb : Blank b) (t : Text) : trim (a ++ t ++ b) = trim t := by
  have hleft : trimLeft (a ++ t ++ b) = trimLeft (t ++ b) := by
    rw [trimLeft, List.append_assoc, List.dropWhile_append_of_pos fun c hc => (ha c hc).1, trimLeft]
  rw [trim, hleft, trimLeft_append_right hb, trim]
  split
  next hnil => rw [hnil]
  next => exact trimRight_append hb _

theorem trim_of_blank (h : Blank t) : trim t = [] := by
  have hall := trim_append h .nil []
  simpa [trim, trimLeft, trimRight] using hall

def solid (ts : List Text) : List Text := (ts.map trim).filter (· ≠ [])

theorem solid_cons (t : Text) (ts : List Text) : solid (t :: ts) = solid [t] ++ solid ts := by
  rw [solid, solid, solid, ← List.filter_append, ← List.map_append]
  rfl

theorem solid_singleton_congr (h : trim a = trim b) : solid [a] = solid [b] := by
  rw [solid, solid, List.map_singleton, List.map_singleton, h]

theorem solid_blank (h : Blank t) : solid [t] = [] := by simp [solid, trim_of_blank h]

def withoutReturn (t : Text) : Text := if t.getLast? = some '\r' then t.dropLast else t

theorem lines_append_feed (h : '\n' ∉ line) (rest : Text) :
    lines (line ++ '\n' :: rest) = withoutReturn line :: lines rest := by
  have hne := splitBy_ne_nil (· == '\n') rest
  have hlast : (line :: splitBy (· == '\n') rest).getLast? =
      (splitBy (· == '\n') rest).getLast? := by
    rw [List.getLast?_cons, List.getLast?_eq_some_getLast hne]
    rfl
  rw [lines, lines, splitBy_append_of_notMem h, List.dropLast_cons_of_ne_nil hne, List.map_cons,
    hlast]
  cases (splitBy (· == '\n') rest).getLast? with
  | none => rfl
  | some l => cases l <;> rfl

theorem lines_of_noFeed (h : '\n' ∉ t) : lines t = if t = [] then [] else [t] := by
  rw [lines, splitBy_of_notMem h]
  cases t <;> rfl

theorem trim_withoutReturn (t : Text) : trim (withoutReturn t) = trim t := by
  rw [withoutReturn]
  split
  next hlast =>
    obtain ⟨a, rfl⟩ := List.getLast?_eq_some_iff.1 hlast
    rw [List.dropLast_concat]
    exact (trim_append .nil .carriage a).symm
  next => rfl

theorem solid_lines_append_feed (h : '\n' ∉ line) (rest : Text) :
    solid (lines (line ++ '\n' :: rest)) = solid [line] ++ solid (lines rest) := by
  rw [lines_append_feed h, solid_cons, solid_singleton_congr (trim_withoutReturn line)]

theorem solid_lines_of_noFeed (h : '\n' ∉ t) : solid (lines t) = solid [t] := by
  rw [lines_of_noFeed h]
  split
  next hnil =>
    subst hnil
    rfl
  next => rfl

theorem infix_join {sep : Text} (h : t ∈ ts) : t <:+: join sep ts := by
  induction ts with
  | nil => cases h
  | cons u us ih =>
    by_cases hnil : us = []
    · subst hnil
      obtain rfl := List.mem_singleton.1 h
      exact List.infix_refl t
    · rw [join_cons sep u hnil]
      cases List.mem_cons.1 h with
      | inl hsame =>
        rw [hsame, List.append_assoc]
        exact (List.prefix_append _ _).isInfix
      | inr hlater => exact (ih hlater).trans (List.suffix_append _ _).isInfix

theorem infix_of_mem_splitBy {c : Char} {p : Text} (h : p ∈ splitBy (· == c) t) : p <:+: t := by
  have hjoin : p <:+: join [c] (splitBy (· == c) t) := infix_join h
  rwa [join_splitBy] at hjoin

theorem mem_lines (h : line ∈ lines t) : '\n' ∉ line ∧ line <:+: t := by
  have hpiece : ∃ p ∈ splitBy (· == '\n') t, line <+: p := by
    rw [lines] at h
    have hfull : line ∈ (splitBy (· == '\n') t).dropLast.map withoutReturn →
        ∃ p ∈ splitBy (· == '\n') t, line <+: p := by
      intro hmem
      obtain ⟨p, hp, rfl⟩ := List.mem_map.1 hmem
      refine ⟨p, List.mem_of_mem_dropLast hp, ?_⟩
      rw [withoutReturn]
      split
      · exact List.dropLast_prefix p
      · exact List.prefix_refl p
    split at h
    · exact hfull h
    · exact hfull h
    next l hne hlast =>
      cases List.mem_append.1 h with
      | inl hmem => exact hfull hmem
      | inr hmem =>
        obtain rfl := List.mem_singleton.1 hmem
        exact ⟨line, List.mem_of_getLast? hlast, List.prefix_refl line⟩
  obtain ⟨p, hp, hbegins⟩ := hpiece
  refine ⟨fun hfeed => ?_, hbegins.isInfix.trans (infix_of_mem_splitBy hp)⟩
  simpa using mem_splitBy hp _ (hbegins.subset hfeed)

end Text

namespace Document

inductive LineEnd : Text → Prop
  | feed : LineEnd ['\n']
  | carriage : LineEnd ['\r', '\n']

/-- That a block consists of lines with white space around each, blank lines among them, and a line
end of either form after each. The last line may be without a line end, if what is then in front of
the fence is no dash. -/
inductive Spaced : List Text → Text → Prop
  | tail {space : Text} (hspace : Text.Blank space) : Spaced [] space
  | last {before line after : Text} (hbefore : Text.Blank before) (hafter : Text.Blank after)
      (hdash : (line ++ after).getLast? ≠ some '-') : Spaced [line] (before ++ line ++ after)
  | blank {lines : List Text} {space ending rest : Text} (hspace : Text.Blank space)
      (hending : LineEnd ending)
      (hrest : Spaced lines rest) : Spaced lines (space ++ ending ++ rest)
  | line {lines : List Text} {before line after ending rest : Text} (hbefore : Text.Blank before)
      (hafter : Text.Blank after) (hending : LineEnd ending) (hrest : Spaced lines rest) :
      Spaced (line :: lines) (before ++ line ++ after ++ ending ++ rest)

variable {lines : List Text} {t block block' ending body : Text}

theorem LineEnd.exists_blank (h : LineEnd ending) (line rest : Text) :
    ∃ space, Text.Blank space ∧ line ++ ending ++ rest = line ++ space ++ '\n' :: rest := by
  cases h with
  | feed => exact ⟨[], .nil, by simp⟩
  | carriage => exact ⟨['\r'], .carriage, by simp⟩

theorem Spaced.solid_lines (h : Spaced lines block) (hfeed : ∀ l ∈ lines, '\n' ∉ l) :
    Text.solid (Text.lines block) = Text.solid lines := by
  induction h with
  | tail hspace =>
    rw [Text.solid_lines_of_noFeed hspace.noFeed, Text.solid_blank hspace]
    rfl
  | @last before line after hbefore hafter hdash =>
    have hline : '\n' ∉ before ++ line ++ after := by simp [hbefore.noFeed, hafter.noFeed, hfeed]
    rw [Text.solid_lines_of_noFeed hline]
    exact Text.solid_singleton_congr (Text.trim_append hbefore hafter line)
  | @blank lines space ending rest hspace hending hrest ih =>
    obtain ⟨space', hspace', hshape⟩ := hending.exists_blank space rest
    have hblank := hspace.append hspace'
    rw [hshape, Text.solid_lines_append_feed hblank.noFeed, Text.solid_blank hblank, ih hfeed]
    rfl
  | @line lines before line after ending rest hbefore hafter hending hrest ih =>
    obtain ⟨space, hspace, hshape⟩ := hending.exists_blank (before ++ line ++ after) rest
    obtain ⟨hfirst, hfeed⟩ := List.forall_mem_cons.1 hfeed
    have hblank := hafter.append hspace
    have hline : '\n' ∉ before ++ line ++ (after ++ space) := by
      simp [hbefore.noFeed, hblank.noFeed, hfirst]
    rw [hshape, List.append_assoc (before ++ line), Text.solid_lines_append_feed hline,
      Text.solid_singleton_congr (Text.trim_append hbefore hblank line), ih hfeed,
      ← Text.solid_cons]

theorem no_fence_of_no_dash (h : '-' ∉ t) :
    ¬fence <:+: t := fun hoccurs => h (hoccurs.subset (by decide))

theorem fence_infix_of_blank {before line after : Text} (hbefore : Text.Blank before)
    (hafter : Text.Blank after) (h : fence <:+: before ++ line ++ after) : fence <:+: line := by
  have hright : fence <:+: before ++ line := by
    cases after with
    | nil => simpa using h
    | cons c after =>
      have hc : c ∉ fence := fun hmem =>
        hafter.dash_notMem (eq_dash_of_mem hmem ▸ List.mem_cons_self)
      have hrest : '-' ∉ after := fun hmem => hafter.dash_notMem (List.mem_cons_of_mem _ hmem)
      exact ((Text.infix_append_cons_iff hc).1 h).resolve_right (no_fence_of_no_dash hrest)
  cases List.eq_nil_or_concat before with
  | inl hnil =>
    subst hnil
    exact hright
  | inr hconcat =>
    obtain ⟨front, c, rfl⟩ := hconcat
    have hc : c ∉ fence := fun hmem => hbefore.dash_notMem (eq_dash_of_mem hmem ▸ by simp)
    have hfront : '-' ∉ front := fun hmem => hbefore.dash_notMem (by simp [hmem])
    rw [List.concat_append] at hright
    exact ((Text.infix_append_cons_iff hc).1 hright).resolve_left (no_fence_of_no_dash hfront)

theorem getLast?_append_ne_dash {a b : Text} (ha : a.getLast? ≠ some '-')
    (hb : b.getLast? ≠ some '-') :
    (a ++ b).getLast? ≠ some '-' := by
  rw [List.getLast?_append]
  cases hlast : b.getLast? with
  | none => simpa using ha
  | some c => simpa [hlast] using hb

theorem getLast?_ne_dash (h : Text.Blank t) : t.getLast? ≠ some '-' :=
  fun hlast => h.dash_notMem (List.mem_of_getLast? hlast)

theorem Spaced.clear (h : Spaced lines block) (hlines : ∀ l ∈ lines, ¬fence <:+: l) :
    Clear block := by
  induction h with
  | tail hspace =>
    exact clear_iff.2 ⟨no_fence_of_no_dash hspace.dash_notMem, getLast?_ne_dash hspace⟩
  | @last before line after hbefore hafter hdash =>
    refine clear_iff.2 ⟨fun hoccurs =>
      hlines line (by simp) (fence_infix_of_blank hbefore hafter hoccurs), ?_⟩
    rw [List.append_assoc]
    exact getLast?_append_ne_dash (getLast?_ne_dash hbefore) hdash
  | @blank lines space ending rest hspace hending hrest ih =>
    obtain ⟨space', hspace', hshape⟩ := hending.exists_blank space rest
    rw [hshape, clear_append_feed_iff]
    exact ⟨no_fence_of_no_dash (hspace.append hspace').dash_notMem, ih hlines⟩
  | @line lines before line after ending rest hbefore hafter hending hrest ih =>
    obtain ⟨space, hspace, hshape⟩ := hending.exists_blank (before ++ line ++ after) rest
    obtain ⟨hfirst, hlines⟩ := List.forall_mem_cons.1 hlines
    rw [hshape, List.append_assoc (before ++ line), clear_append_feed_iff]
    exact ⟨fun hoccurs => hfirst (fence_infix_of_blank hbefore (hafter.append hspace) hoccurs),
      ih hlines⟩

theorem Spaced.normalize (h : Spaced lines block) (hfeed : ∀ l ∈ lines, '\n' ∉ l) :
    FrontMatter.normalize block = Text.join ['\n'] (Text.solid lines) :=
  congrArg (Text.join ['\n']) (h.solid_lines hfeed)

theorem ofParts_congr (h : FrontMatter.normalize block = FrontMatter.normalize block')
    (body : Text) :
    ofParts block body = ofParts block' body := by
  rw [ofParts, ofParts, FrontMatter.ofBlock, FrontMatter.ofBlock, h]

/-- A block with other white space around its lines, with blank lines put in, or with other line
ends, is again the block of its text, with the same line end and body after it. What is read as a
mapping is the same text in both; so the text comes to the same document or error. -/
theorem ofText_spaced (h : Parts t block ending body) (hspaced : Spaced (Text.lines block) block') :
    Parts (fence ++ block' ++ fence ++ ending ++ body) block' ending body ∧
      FrontMatter.normalize block' = FrontMatter.normalize block ∧
        ofText (fence ++ block' ++ fence ++ ending ++ body) = ofText t := by
  have hnone : ∀ l ∈ Text.lines block, ¬fence <:+: l := by
    intro l hl hoccurs
    exact (clear_iff.1 h.clear).1 (hoccurs.trans (Text.mem_lines hl).2)
  have hnormalize : FrontMatter.normalize block' = FrontMatter.normalize block :=
    hspaced.normalize fun l hl => (Text.mem_lines hl).1
  have hparts : Parts (fence ++ block' ++ fence ++ ending ++ body) block' ending body :=
    ⟨rfl, hspaced.clear hnone, h.ends⟩
  refine ⟨hparts, hnormalize, ?_⟩
  rw [hparts.ofText, h.ofText, ofParts_congr hnormalize]

def tightText : Text := "---\na: x\nb: -y-\n---\nz".toList

def looseBlock : Text := " \r\n\ta: x \n\u2003\r\n b: -y-\r\n  ".toList

theorem tightText_parts : Parts tightText "\na: x\nb: -y-\n".toList ['\n'] "z".toList :=
  ⟨by decide, by decide, .feed _⟩

theorem looseBlock_spaced : Spaced (Text.lines "\na: x\nb: -y-\n".toList) looseBlock := by
  have hlines : Text.lines "\na: x\nb: -y-\n".toList = [[], "a: x".toList, "b: -y-".toList] := by
    decide
  have hblock : looseBlock = " ".toList ++ [] ++ [] ++ ['\r', '\n'] ++
      ("\t".toList ++ "a: x".toList ++ " ".toList ++ ['\n'] ++
      ("\u2003".toList ++ ['\r', '\n'] ++
        (" ".toList ++ "b: -y-".toList ++ [] ++ ['\r', '\n'] ++ "  ".toList))) := by decide
  have htab : Text.Blank "\t".toList := by decide
  have hspace : Text.Blank " ".toList := by decide
  have hwide : Text.Blank "\u2003".toList := by decide
  have htail : Spaced [] "  ".toList := .tail (by decide)
  rw [hlines, hblock]
  exact .line hspace .nil .carriage
    (.line htab hspace .feed (.blank hwide .carriage (.line hspace .nil .carriage htail)))

theorem looseBlock_read :
    ofText (fence ++ looseBlock ++ fence ++ ['\n'] ++ "z".toList) = ofText tightText ∧
      ∃ metadata, ofText tightText = .ok ⟨some metadata, "z".toList⟩ ∧
        metadata.text? "b".toList = some "-y-".toList := by
  have hread : (FrontMatter.ofBlock "\na: x\nb: -y-\n".toList).toOption.bind (·.text? "b".toList) =
      some "-y-".toList := by
    decide +kernel
  obtain ⟨metadata, hblock, hvalue⟩ := FrontMatter.exists_text hread
  obtain ⟨-, -, hsame⟩ := ofText_spaced tightText_parts looseBlock_spaced
  refine ⟨hsame, metadata, ?_, hvalue⟩
  rw [tightText_parts.ofText, ofParts, hblock]

end Document
end StaticSite
