import Mathlib
import StaticSite.Page.Template
import StaticSite.Proofs.PathNames

/-! The grammar of tags, apart from the search for markers. A line has one reading: tags from left
to right, each from the leftmost opening marker to the first closing marker of its kind after it,
and a tail in which the leftmost opening marker, if there is one, is not closed. The reading looks
at the text of the line alone, and rendering puts in what each tag stands for; so nothing that is
put in is read. -/
namespace StaticSite

namespace Text

variable {needle t a b : Text} {n : Nat}

theorem not_infix_cons {c : Char} : ¬needle <:+: c :: t ↔ ¬needle <+: c :: t ∧ ¬needle <:+: t := by
  rw [List.infix_cons_iff, not_or]

theorem forall_lt_drop_cons {P : Text → Prop} {c : Char} :
    (∀ i < n + 1, P ((c :: t).drop i)) ↔ P (c :: t) ∧ ∀ i < n, P (t.drop i) := by
  constructor
  · intro h
    exact ⟨h 0 (Nat.succ_pos n), fun i hi => h (i + 1) (Nat.succ_lt_succ hi)⟩
  · rintro ⟨hfirst, hrest⟩ i hi
    cases i with
    | zero => exact hfirst
    | succ i => exact hrest i (Nat.lt_of_succ_lt_succ hi)

theorem cut?_eq_some_iff :
    cut? needle t = some (a, b) ↔ t = a ++ needle ++ b ∧ ∀ i < a.length, ¬needle <+: t.drop i := by
  induction t generalizing a with
  | nil =>
    rw [cut?]
    split
    next hnil =>
      subst hnil
      cases a <;> simp [eq_comm]
    next hne =>
      refine iff_of_false (by simp) ?_
      rintro ⟨heq, -⟩
      simp_all
  | cons c t ih =>
    rw [cut?]
    -- Either the text begins with what is searched for, or the search goes on one place further.
    cases hafter : after? needle (c :: t) with
    | some rest =>
      have heq := after?_eq_some_iff.1 hafter
      constructor
      · intro h
        cases h
        exact ⟨heq, by simp⟩
      · rintro ⟨htext, hfirst⟩
        cases a with
        | nil =>
          rw [List.nil_append, heq, List.append_right_inj] at htext
          rw [htext]
        | cons d a => exact absurd ⟨rest, heq.symm⟩ (hfirst 0 (by simp))
    | none =>
      have hnot := after?_eq_none_iff.1 hafter
      rw [Option.map_eq_some_iff]
      cases a with
      | nil =>
        refine iff_of_false (by simp) ?_
        rintro ⟨htext, -⟩
        exact hnot ⟨b, htext.symm⟩
      | cons d a =>
        have htimes := forall_lt_drop_cons (P := fun r => ¬needle <+: r) (n := a.length) (c := c)
          (t := t)
        constructor
        · rintro ⟨⟨a', b'⟩, h', heq⟩
          simp only [Prod.mk.injEq, List.cons.injEq] at heq
          obtain ⟨⟨rfl, rfl⟩, rfl⟩ := heq
          obtain ⟨htext, hfirst⟩ := ih.1 h'
          refine ⟨by rw [htext]; rfl, ?_⟩
          rw [List.length_cons, htimes]
          exact ⟨hnot, hfirst⟩
        · rintro ⟨htext, hfirst⟩
          rw [List.length_cons, htimes] at hfirst
          simp only [List.cons_append, List.cons.injEq] at htext
          obtain ⟨rfl, htext⟩ := htext
          exact ⟨(a, b), ih.2 ⟨by simpa using htext, hfirst.2⟩, rfl⟩

theorem cut?_eq_none_iff : cut? needle t = none ↔ ¬needle <:+: t := by
  induction t with
  | nil =>
    rw [cut?, List.infix_nil]
    split <;> simp_all
  | cons c t ih =>
    rw [cut?, not_infix_cons, ← after?_eq_none_iff, ← ih]
    cases after? needle (c :: t) <;> simp

end Text

namespace Line

variable {t before after inner rest : Text} {kind : TagKind} {line : Line}

/-- That a text opens with a tag of some kind at its leftmost opening marker: what is before it and
after it. -/
structure Opens (t before : Text) (kind : TagKind) (after : Text) : Prop where
  text : t = before ++ kind.opening ++ after
  leftmost : ∀ i < before.length, ∀ k : TagKind, ¬k.opening <+: t.drop i

/-- That a tag of some kind is closed by the first marker after its opening: what is in it and after
it. -/
structure Closes (kind : TagKind) (after inner rest : Text) : Prop where
  text : after = inner ++ kind.closing ++ rest
  first : ∀ i < inner.length, ¬kind.closing <+: after.drop i

inductive Reads : Text → Line → Prop
  | plain {t : Text} (hopen : ∀ k : TagKind, ¬k.opening <:+: t) : Reads t ⟨[], t, none⟩
  | unclosed {t before after : Text} {kind : TagKind} (hopens : Opens t before kind after)
      (hclose : ¬kind.closing <:+: after) : Reads t ⟨[], t, some kind⟩
  | tag {t before after inner rest : Text} {kind : TagKind} {line : Line}
      (hopens : Opens t before kind after)
      (hcloses : Closes kind after inner rest) (hrest : Reads rest line) :
      Reads t ⟨⟨before, kind, inner⟩ :: line.tags, line.tail, line.unclosed⟩

def spell (tags : List TagSpan) (tail : Text) : Text :=
  (tags.flatMap fun tag => tag.before ++ tag.kind.opening ++ tag.inner ++ tag.kind.closing) ++ tail

def text (line : Line) : Text := spell line.tags line.tail

/-- Nothing opens at a place where the search goes on. -/
theorem not_isPrefix_opening {c : Char} (hvalue : ∀ r, c = '\x7b' → t = '\x7b' :: r → False)
    (hcommand : ∀ r, c = '\x7b' → t = '%' :: r → False) (k : TagKind) : ¬k.opening <+: c :: t := by
  rintro ⟨r, hr⟩
  cases k with
  | value =>
    simp only [TagKind.opening, List.cons_append, List.nil_append, List.cons.injEq] at hr
    exact hvalue r hr.1.symm hr.2.symm
  | command =>
    simp only [TagKind.opening, List.cons_append, List.nil_append, List.cons.injEq] at hr
    exact hcommand r hr.1.symm hr.2.symm

theorem opens_of_nextTag? (h : nextTag? t = some (before, kind, after)) :
    Opens t before kind after := by
  refine ⟨eq_of_nextTag? h, ?_⟩
  fun_induction nextTag? t generalizing before kind after with
  | case1 => simp at h
  | case2 | case3 =>
    cases h
    simp
  | case4 c rest hvalue hcommand ih =>
    obtain ⟨⟨before', kind', after'⟩, h', heq⟩ := Option.map_eq_some_iff.1 h
    cases heq
    exact (Text.forall_lt_drop_cons (P := fun r => ∀ k : TagKind, ¬k.opening <+: r)).2
      ⟨not_isPrefix_opening hvalue hcommand, ih h'⟩

theorem not_infix_of_nextTag? (h : nextTag? t = none) (k : TagKind) : ¬k.opening <:+: t := by
  fun_induction nextTag? t with
  | case1 => cases k <;> simp [TagKind.opening]
  | case2 | case3 => simp at h
  | case4 c rest hvalue hcommand ih =>
    exact Text.not_infix_cons.2 ⟨not_isPrefix_opening hvalue hcommand k,
      ih (Option.map_eq_none_iff.1 h)⟩

theorem Opens.occurs (h : Opens t before kind after) :
    kind.opening <:+: t := ⟨before, after, h.text.symm⟩

theorem Opens.length_le {before' after' : Text} {kind' : TagKind} (h : Opens t before kind after)
    (h' : Opens t before' kind' after') : before'.length ≤ before.length := by
  by_contra hlt
  refine h'.leftmost before.length (Nat.lt_of_not_le hlt) kind ⟨after, ?_⟩
  rw [h.text, List.append_assoc, List.drop_left]

theorem Opens.unique {before' after' : Text} {kind' : TagKind} (h : Opens t before kind after)
    (h' : Opens t before' kind' after') : before = before' ∧ kind = kind' ∧ after = after' := by
  have hlen := Nat.le_antisymm (h'.length_le h) (h.length_le h')
  have htext := h.text.symm.trans h'.text
  rw [List.append_assoc, List.append_assoc] at htext
  obtain ⟨rfl, hrest⟩ := List.append_inj htext hlen
  refine ⟨rfl, ?_⟩
  cases kind <;> cases kind' <;> simp_all [TagKind.opening]

theorem nextTag?_eq_some_iff : nextTag? t = some (before, kind, after) ↔
    Opens t before kind after := by
  refine ⟨opens_of_nextTag?, fun h => ?_⟩
  cases hnext : nextTag? t with
  | none => exact absurd h.occurs (not_infix_of_nextTag? hnext kind)
  | some found =>
    obtain ⟨before', kind', after'⟩ := found
    obtain ⟨rfl, rfl, rfl⟩ := h.unique (opens_of_nextTag? hnext)
    rfl

theorem nextTag?_eq_none_iff : nextTag? t = none ↔ ∀ k : TagKind, ¬k.opening <:+: t := by
  refine ⟨not_infix_of_nextTag?, fun h => ?_⟩
  cases hnext : nextTag? t with
  | none => rfl
  | some found => exact absurd (opens_of_nextTag? hnext).occurs (h _)

theorem cut?_closing_eq_some_iff : Text.cut? kind.closing after = some (inner, rest) ↔
    Closes kind after inner rest := by
  rw [Text.cut?_eq_some_iff]
  exact ⟨fun h => ⟨h.1, h.2⟩, fun h => ⟨h.text, h.first⟩⟩

/-! ### The reading of a line -/

theorem scan_of_plain (h : nextTag? t = none) : scan t = ⟨[], t, none⟩ := by
  rw [scan]
  split <;> simp_all

theorem scan_of_unclosed (h : nextTag? t = some (before, kind, after))
    (h' : Text.cut? kind.closing after = none) :
    scan t = ⟨[], t, some kind⟩ := by
  rw [scan]
  split
  next hnone => simp [h] at hnone
  next hsome =>
    rw [h] at hsome
    cases hsome
    split <;> simp_all

theorem scan_of_tag (h : nextTag? t = some (before, kind, after))
    (h' : Text.cut? kind.closing after = some (inner, rest)) :
    scan t = ⟨⟨before, kind, inner⟩ :: (scan rest).tags, (scan rest).tail,
      (scan rest).unclosed⟩ := by
  rw [scan]
  split
  next hnone => simp [h] at hnone
  next hsome =>
    rw [h] at hsome
    cases hsome
    split
    next hnone => simp [h'] at hnone
    next hcut =>
      rw [h'] at hcut
      cases hcut
      rfl

theorem reads_scan (t : Text) : Reads t (scan t) := by
  fun_induction scan t with
  | case1 t hnext => exact .plain (nextTag?_eq_none_iff.1 hnext)
  | case2 t before kind after hnext hcut =>
    exact .unclosed (nextTag?_eq_some_iff.1 hnext) (Text.cut?_eq_none_iff.1 hcut)
  | case3 t before kind after hnext inner rest hcut _ line ih =>
    exact .tag (nextTag?_eq_some_iff.1 hnext) (cut?_closing_eq_some_iff.1 hcut) ih

theorem Reads.eq_scan (h : Reads t line) : line = scan t := by
  induction h with
  | plain hopen => rw [scan_of_plain (nextTag?_eq_none_iff.2 hopen)]
  | unclosed hopens hclose =>
    rw [scan_of_unclosed (nextTag?_eq_some_iff.2 hopens) (Text.cut?_eq_none_iff.2 hclose)]
  | tag hopens hcloses hrest ih =>
    rw [scan_of_tag (nextTag?_eq_some_iff.2 hopens) (cut?_closing_eq_some_iff.2 hcloses), ← ih]

theorem Reads.text_eq (h : Reads t line) : line.text = t := by
  induction h with
  | plain | unclosed => rfl
  | tag hopens hcloses hrest ih =>
    rw [hopens.text, hcloses.text]
    simpa [text, spell] using ih

theorem Reads.unclosed_iff (h : Reads t line) :
    line.unclosed = some kind ↔ ∃ before after, Opens line.tail before kind after := by
  induction h with
  | plain hopen =>
    refine iff_of_false (by simp) ?_
    rintro ⟨before, after, hopens⟩
    exact hopen kind hopens.occurs
  | @unclosed t before after kind' hopens hclose =>
    constructor
    · intro heq
      cases heq
      exact ⟨before, after, hopens⟩
    · rintro ⟨before', after', hopens'⟩
      exact congrArg some (hopens.unique hopens').2.1
  | tag hopens hcloses hrest ih => exact ih

end Line

namespace Template

variable {s : Snippets} {env : Environment} {source : Path} {body : Text} {lines : List Line}
  {r : Rendered}

/-- The reading of a body: its lines, which are what stands between its line feeds. -/
structure Reads (body : Text) (lines : List Line) : Prop where
  ne_nil : lines ≠ []
  line : ∀ line ∈ lines, Line.Reads line.text line ∧ '\n' ∉ line.text
  body : Text.join ['\n'] (lines.map Line.text) = body

theorem reads_scan (body : Text) : Reads body ((Text.splitBy (· == '\n') body).map Line.scan) := by
  have htext : ∀ t, (Line.scan t).text = t := fun t => (Line.reads_scan t).text_eq
  refine ⟨by simp [Text.splitBy_ne_nil], ?_, ?_⟩
  · intro line hline
    obtain ⟨t, ht, rfl⟩ := List.mem_map.1 hline
    rw [htext]
    exact ⟨Line.reads_scan t, fun hfeed => by simpa using Text.mem_splitBy ht _ hfeed⟩
  · rw [List.map_map, show Line.text ∘ Line.scan = id from funext htext, List.map_id,
      Text.join_splitBy]

theorem Reads.eq_scan (h : Reads body lines) :
    lines = (Text.splitBy (· == '\n') body).map Line.scan := by
  have hsplit : Text.splitBy (· == '\n') body = lines.map Line.text := by
    rw [← h.body]
    refine Text.splitBy_join (by simpa using h.ne_nil) fun t ht => ?_
    obtain ⟨line, hline, rfl⟩ := List.mem_map.1 ht
    exact (h.line line hline).2
  rw [hsplit, List.map_map]
  calc
    lines = lines.map id := (List.map_id lines).symm
    _ = lines.map (Line.scan ∘ Line.text) := List.map_congr_left fun line hline =>
      (h.line line hline).1.eq_scan

/-! ### What is put in -/

/-- What a tag stands for: a value tag for its variable, an include for a file as it is, another
command for nothing. -/
inductive Stands (s : Snippets) (env : Environment) : TagSpan → Text → Prop
  | value {before inner : Text} :
      Stands s env ⟨before, .value, inner⟩ ((env.lookup (Text.trim inner)).getD [])
  | file {before inner name content : Text} {more : List Text}
      (hwords : Text.words inner = includeWord :: name :: more)
      (hread : s.files.readText (s.directory.joinText name) = .ok content) :
      Stands s env ⟨before, .command, inner⟩ content
  | nothing {before inner : Text} (hword : (Text.words inner).head? ≠ some includeWord) :
      Stands s env ⟨before, .command, inner⟩ []

/-- What a line comes to: the text before each tag and what the tag stands for, and then its
tail. -/
def Renders (s : Snippets) (env : Environment) (line : Line) (out : Text) : Prop :=
  ∃ values, List.Forall₂ (Stands s env) line.tags values ∧
    out = (List.zipWith (fun tag value => tag.before ++ value) line.tags values).flatten ++
    line.tail ++ ['\n']

theorem read_eq_ok_iff {name content : Text} :
    s.read name = .ok content ↔ s.files.readText (s.directory.joinText name) = .ok content := by
  rw [Snippets.read]
  split <;> simp_all

theorem tagText_eq_ok_iff {tag : TagSpan} {out : Text} :
    tagText s env tag.kind tag.inner = .ok out ↔ Stands s env tag out := by
  obtain ⟨before, kind, inner⟩ := tag
  constructor
  · intro h
    cases kind with
    | value =>
      cases h
      exact .value
    | command =>
      simp only [tagText] at h
      split at h
      next hwords =>
        cases h
        exact .nothing (by simp [hwords])
      next word hwords =>
        split at h
        · cases h
        next hne =>
          cases h
          exact .nothing (by simpa [hwords] using hne)
      next word name more hwords =>
        split at h
        next heq =>
          subst heq
          exact .file hwords (read_eq_ok_iff.1 h)
        next hne =>
          cases h
          exact .nothing (by simpa [hwords] using hne)
  · intro h
    cases h with
    | value => rfl
    | file hwords hread =>
      simp only [tagText, hwords]
      exact read_eq_ok_iff.2 hread
    | nothing hword =>
      simp only [tagText]
      split
      · rfl
      next word hwords => rw [if_neg (by simpa [hwords] using hword)]
      next word name more hwords => rw [if_neg (by simpa [hwords] using hword)]

theorem tagsText_eq_ok_iff {tags : List TagSpan} {out : Text} :
    tagsText s env tags = .ok out ↔ ∃ values, List.Forall₂ (Stands s env) tags values ∧
      out = (List.zipWith (fun tag value => tag.before ++ value) tags values).flatten := by
  induction tags generalizing out with
  | nil =>
    constructor
    · intro h
      cases h
      exact ⟨[], .nil, rfl⟩
    · rintro ⟨values, hvalues, rfl⟩
      cases hvalues
      rfl
  | cons tag tags ih =>
    rw [tagsText]
    constructor
    · intro h
      cases htag : tagText s env tag.kind tag.inner with
      | error e => simp [htag] at h
      | ok value =>
        cases hrest : tagsText s env tags with
        | error e => simp [htag, hrest, Except.map] at h
        | ok rest =>
          rw [htag, hrest] at h
          cases h
          obtain ⟨values, hvalues, rfl⟩ := ih.1 hrest
          exact ⟨value :: values, .cons (tagText_eq_ok_iff.1 htag) hvalues, rfl⟩
    · rintro ⟨values, hvalues, rfl⟩
      cases hvalues with
      | cons hvalue hvalues =>
        rw [tagText_eq_ok_iff.2 hvalue, ih.2 ⟨_, hvalues, rfl⟩]
        rfl

theorem lineText_eq_ok_iff {line : Line} {out : Text} :
    lineText s env line = .ok out ↔ Renders s env line out := by
  rw [lineText]
  constructor
  · intro h
    cases htags : tagsText s env line.tags with
    | error e => simp [htags, Except.map] at h
    | ok filled =>
      rw [htags] at h
      cases h
      obtain ⟨values, hvalues, rfl⟩ := tagsText_eq_ok_iff.1 htags
      exact ⟨values, hvalues, rfl⟩
  · rintro ⟨values, hvalues, rfl⟩
    rw [tagsText_eq_ok_iff.2 ⟨values, hvalues, rfl⟩]
    rfl

/-- The advisories of lines of which the first has the number `n`: one for each whose tail is not
closed. -/
def advisories (source : Path) (n : Nat) (lines : List Line) : List Advisory :=
  (lines.zipIdx n).filterMap fun (line, m) => line.unclosed.map fun kind => ⟨source, m, kind⟩

theorem advisories_cons (source : Path) (n : Nat) (line : Line) (lines : List Line) :
    advisories source n (line :: lines) =
      (line.unclosed.map fun kind => ⟨source, n, kind⟩).toList ++
        advisories source (n + 1) lines := by
  cases hkind : line.unclosed <;> simp [advisories, List.zipIdx_cons, hkind]

theorem renderLines_eq_ok_iff {n : Nat} {texts : List Text} :
    renderLines s env source n texts = .ok r ↔
      (∃ outs, List.Forall₂ (Renders s env) (texts.map Line.scan) outs ∧ r.text = outs.flatten) ∧
        r.advisories = advisories source n (texts.map Line.scan) := by
  induction texts generalizing n r with
  | nil =>
    constructor
    · intro h
      cases h
      exact ⟨⟨[], .nil, rfl⟩, rfl⟩
    · rintro ⟨⟨outs, houts, htext⟩, hadvisories⟩
      cases houts
      exact congrArg Except.ok (by cases r; simp_all [advisories])
  | cons t texts ih =>
    rw [renderLines, List.map_cons, advisories_cons]
    constructor
    · intro h
      cases hline : lineText s env (Line.scan t) with
      | error e => simp [hline] at h
      | ok out =>
        cases hrest : renderLines s env source (n + 1) texts with
        | error e => simp [hline, hrest, Except.map] at h
        | ok rest =>
          simp only [hline, hrest] at h
          cases h
          obtain ⟨⟨outs, houts, htext⟩, hadvisories⟩ := ih.1 hrest
          refine ⟨⟨out :: outs, .cons (lineText_eq_ok_iff.1 hline) houts, ?_⟩, ?_⟩
          · exact congrArg (out ++ ·) htext
          · exact congrArg (_ ++ ·) hadvisories
    · rintro ⟨⟨outs, houts, htext⟩, hadvisories⟩
      cases houts with
      | @cons _ out _ outs hout houts =>
        have hrest : renderLines s env source (n + 1) texts =
            .ok ⟨outs.flatten, advisories source (n + 1) (texts.map Line.scan)⟩ :=
          ih.2 ⟨⟨outs, houts, rfl⟩, rfl⟩
        simp only [lineText_eq_ok_iff.2 hout, hrest, Except.map]
        cases r
        simp_all

theorem Reads.render_eq_ok_iff (h : Reads body lines) :
    render s env source body = .ok r ↔
      (∃ outs, List.Forall₂ (Renders s env) lines outs ∧ r.text = outs.flatten) ∧
        r.advisories = advisories source 1 lines := by
  rw [h.eq_scan]
  exact renderLines_eq_ok_iff

/-- Every line has one reading, and so has every body. It is a matter of the text alone: whatever
the variables are and wherever snippets are found, rendering comes to the lines of this reading with
what their tags stand for, if each of these stands for something, and there is one advisory for each
line with a tail that is not closed. -/
theorem render_eq_ok_iff_reads (body : Text) :
    (∀ t, ∃ line, Line.Reads t line ∧ line.text = t ∧
        (∀ kind, line.unclosed = some kind ↔
          ∃ before after, Line.Opens line.tail before kind after) ∧
          ∀ other, Line.Reads t other → other = line) ∧
      ∃ lines, Reads body lines ∧ (∀ others, Reads body others → others = lines) ∧
        ∀ s env source r, render s env source body = .ok r ↔
          (∃ outs, List.Forall₂ (Renders s env) lines outs ∧ r.text = outs.flatten) ∧
            r.advisories = advisories source 1 lines := by
  constructor
  · intro t
    have hreads := Line.reads_scan t
    exact ⟨Line.scan t, hreads, hreads.text_eq, fun kind => hreads.unclosed_iff,
      fun other => Line.Reads.eq_scan⟩
  · exact ⟨_, reads_scan body, fun others => Reads.eq_scan,
      fun s env source r => (reads_scan body).render_eq_ok_iff⟩

/-- Markers that overlap: the first two of three braces open, the first two close, and a marker in a
tag is of the tag. -/
def overlappingBody : Text :=
  "\x7b\x7b\x7ba\x7d\x7d\x7d-\x7b%\x7d\x7b\x7ba\x7d\x7d%\x7d!\n\x7b\x7ba%\x7d\n\x7b\x7b a \x7d\x7d\x7d\x7b%include f x%\x7d".toList

def overlappingLines : List Line :=
  [⟨[⟨[], .value, "\x7ba".toList⟩, ⟨"\x7d-".toList, .command, "\x7d\x7b\x7ba\x7d\x7d".toList⟩],
    "!".toList, none⟩, ⟨[], "\x7b\x7ba%\x7d".toList, some .value⟩,
    ⟨[⟨[], .value, " a ".toList⟩, ⟨"\x7d".toList, .command, "include f x".toList⟩], [], none⟩]

theorem overlappingBody_reads : Reads overlappingBody overlappingLines := by
  have h := reads_scan overlappingBody
  rwa [show (Text.splitBy (· == '\n') overlappingBody).map Line.scan = overlappingLines by cbv] at h

def tagSnippets : Snippets where
  files :=
    { nodes := [(["i".toList], .directory 0),
        (["i".toList, "f".toList], .file (Text.Utf8.encode "\x7b\x7ba\x7d\x7d".toList) 1)]
      here := []
      clock := 1 }
  directory := .ofString "/i"

def tagPage : FrontMatter := ⟨[("a".toList, .string "\x7b%".toList)]⟩

theorem overlappingBody_render :
    render tagSnippets ⟨tagPage, none⟩ (.ofString "p.html") overlappingBody =
      .ok ⟨"\x7d-!\n\x7b\x7ba%\x7d\n\x7b%\x7d\x7b\x7ba\x7d\x7d\n".toList,
        [⟨.ofString "p.html", 2, .value⟩]⟩ := by
  obtain ⟨-, lines, -, hunique, hrender⟩ := render_eq_ok_iff_reads overlappingBody
  obtain rfl := hunique _ overlappingBody_reads
  refine (hrender _ _ _ _).2 ⟨⟨["\x7d-!\n".toList, "\x7b\x7ba%\x7d\n".toList,
    "\x7b%\x7d\x7b\x7ba\x7d\x7d\n".toList], ?_, rfl⟩, rfl⟩
  refine .cons ⟨[[], []], .cons .value (.cons (.nothing (by decide)) .nil), rfl⟩ ?_
  refine .cons ⟨[], .nil, rfl⟩ (.cons ⟨["\x7b%".toList, "\x7b\x7ba\x7d\x7d".toList], ?_, rfl⟩ .nil)
  have hwords : Text.words "include f x".toList = includeWord :: "f".toList :: ["x".toList] := by
    decide
  exact .cons .value (.cons (.file hwords (by cbv)) .nil)

end Template
end StaticSite
