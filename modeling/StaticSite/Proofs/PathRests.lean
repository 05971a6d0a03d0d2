import StaticSite.Proofs.PathParts

/-! What is left of a path when its first components are taken away: a relative path of the
components that are left, however many slashes and dots stand between them. -/
namespace StaticSite

theorem Path.partsFrom_cons_of_idle {i : Nat} (hi : 0 < i) {t : Text} (ht : Idle t)
    (ts : List Text) :
    partsFrom i (t :: ts) = partsFrom (i + t.length + 1) ts := by
  have hi0 : i ≠ 0 := by omega
  rw [partsFrom]
  cases ht with
  | inl hnil => rw [if_pos hnil]
  | inr hdot =>
    subst hdot
    simp [hi0]

theorem Path.partsFrom_cons_of_not_idle (i : Nat) {t : Text} (ht : ¬Idle t) (ts : List Text) :
    partsFrom i (t :: ts) = ⟨i, i + t.length, Component.ofName t⟩ :: partsFrom (i + t.length + 1)
    ts := by
  obtain ⟨hnil, hdot⟩ := not_or.1 ht
  rw [partsFrom, if_neg hnil, if_neg hdot]
  rfl

namespace Path

variable {p source : Path} {a b ts : List Text} {i k : Nat} {t : Text}

def named (ts : List Text) : List Text := (ts.filter (· ≠ [])).filter (· ≠ ['.'])

theorem named_cons_of_idle (ht : Idle t) (ts : List Text) : named (t :: ts) = named ts := by
  rcases ht with rfl | rfl <;> simp [named]

theorem named_cons_of_not_idle (ht : ¬Idle t) (ts : List Text) :
    named (t :: ts) = t :: named ts := by
  obtain ⟨hnil, hdot⟩ := not_or.1 ht
  simp [named, hnil, hdot]

theorem map_component_partsFrom (hi : 0 < i) (ts : List Text) :
    (partsFrom i ts).map (·.component) = (named ts).map Component.ofName := by
  induction ts generalizing i with
  | nil => rfl
  | cons t ts ih =>
    by_cases ht : Idle t
    · rw [partsFrom_cons_of_idle hi ht, named_cons_of_idle ht, ih (by omega)]
    · rw [partsFrom_cons_of_not_idle i ht, named_cons_of_not_idle ht, List.map_cons, List.map_cons,
        ih (by omega)]

theorem components_of_absolute (hp : p.isAbsolute) :
    p.components = .root :: (p.steps.filter (· ≠ ['.'])).map Component.ofName := by
  obtain ⟨t, -, hpieces⟩ := pieces_of_absolute hp
  rw [components, parts_of_absolute hp, hpieces, List.map_cons, partsFrom, if_pos rfl,
    map_component_partsFrom (by simp), steps_eq, hpieces]
  rfl

theorem components_ofNames {names : List Text} (hne : names ≠ []) (h : ∀ n ∈ names, Plain n) :
    (ofNames names).components = names.map Component.ofName := by
  have hparts : (ofNames names).parts = partsFrom 0 names := by
    rw [parts, ofNames_noAbsolute h]
    exact congrArg (partsFrom 0) (Text.pieces_join hne fun n hn => (h n hn).noSlash)
  rw [components, hparts, partsFrom_eq_placed 0 h, map_component_placed]

theorem exists_drop_partsFrom (hi : 0 < i) (hk : k < (partsFrom i ts).length) :
    ∃ a t c, ts = a ++ t :: c ∧ ¬Idle t ∧
      (partsFrom i ts).drop k = partsFrom (i + width a) (t :: c) := by
  induction ts generalizing i k with
  | nil => simp [partsFrom] at hk
  | cons u us ih =>
    have hwidth (a : List Text) : i + u.length + 1 + width a = i + width (u :: a) := by
      rw [width_cons]
      omega
    by_cases hidle : Idle u
    · rw [partsFrom_cons_of_idle hi hidle] at hk ⊢
      obtain ⟨a, t, c, rfl, ht, hdrop⟩ := ih (by omega) hk
      exact ⟨u :: a, t, c, rfl, ht, by rw [hdrop, hwidth]⟩
    · rw [partsFrom_cons_of_not_idle i hidle] at hk ⊢
      cases k with
      | zero => exact ⟨[], u, us, rfl, hidle, (partsFrom_cons_of_not_idle i hidle us).symm⟩
      | succ k =>
        have hk' : k < (partsFrom (i + u.length + 1) us).length := by simpa using hk
        obtain ⟨a, t, c, rfl, ht, hdrop⟩ := ih (by omega) hk'
        exact ⟨u :: a, t, c, rfl, ht, by rw [List.drop_succ_cons, hdrop, hwidth]⟩

theorem getLast?_partsFrom_concat (i : Nat) (ts : List Text) (ht : ¬Idle t) :
    (partsFrom i (ts ++ [t])).getLast? = some ⟨i + width ts, i + width ts + t.length,
      Component.ofName t⟩ := by
  rw [partsFrom_append, partsFrom_cons_of_not_idle _ ht, List.getLast?_append]
  rfl

theorem exists_text_around (a : List Text) (hne : ts ≠ []) (b : List Text) :
    ∃ before after, Text.join ['/'] (a ++ ts ++ b) = before ++ (Text.join ['/'] ts ++ after) ∧
      before.length = width a := by
  obtain ⟨after, hafter⟩ : ∃ after, Text.join ['/'] (ts ++ b) = Text.join ['/'] ts ++ after := by
    by_cases hb : b = []
    · exact ⟨[], by simp [hb]⟩
    · exact ⟨'/' :: Text.join ['/'] b, by rw [Text.join_append _ hne hb]; simp⟩
  rw [List.append_assoc]
  by_cases ha : a = []
  · subst ha
    exact ⟨[], after, by simp [hafter], rfl⟩
  · have hne' : ts ++ b ≠ [] := by simp [hne]
    refine ⟨Text.join ['/'] a ++ ['/'], after, ?_, ?_⟩
    · rw [Text.join_append _ ha hne', hafter]
    · rw [List.length_append, List.length_singleton, length_join ha]

theorem text_span {ps : List Part} {x y : Part} (hne : ts ≠ [])
    (hpieces : Text.pieces p.text = a ++ ts ++ b) (hhead : ps.head? = some x)
    (hx : x.start = width a) (hlast : ps.getLast? = some y) (hy : y.stop + 1 = width a + width ts) :
    (p.span ps).text = Text.join ['/'] ts := by
  obtain ⟨before, after, haround, hbefore⟩ := exists_text_around a hne b
  have hlength := length_join hne
  have hstop : y.stop = (before ++ Text.join ['/'] ts).length := by
    rw [List.length_append]
    omega
  rw [span, hhead, hlast]
  show (p.text.take y.stop).drop x.start = _
  rw [← Text.join_pieces p.text, hpieces, haround, hx, hstop, ← List.append_assoc, List.take_left,
    ← hbefore, List.drop_left]

/-! ### Any path -/

/-- What is before the names of a path: the root, or a dot at its very start. -/
def lead (p : Path) : List Component :=
  if p.isAbsolute then [.root] else if (Text.pieces p.text).head? = some ['.'] then [.here] else []

theorem named_append (a b : List Text) : named (a ++ b) = named a ++ named b := by
  simp [named, List.filter_append]

theorem named_idle (h : ∀ t ∈ ts, Idle t) : named ts = [] := by
  induction ts with
  | nil => rfl
  | cons t ts ih =>
    rw [named_cons_of_idle (h t List.mem_cons_self), ih fun u hu => h u (List.mem_cons_of_mem _ hu)]

theorem isAbsolute_of_pieces (hpieces : Text.pieces p.text = t :: ts) :
    p.isAbsolute ↔ t = [] ∧ ts ≠ [] := by
  have htext : p.text = Text.join ['/'] (t :: ts) := by rw [← hpieces, Text.join_pieces]
  have hslash : '/' ∉ t := Text.noSlash_of_mem_pieces (t := p.text) (by simp [hpieces])
  rw [isAbsolute_iff, htext]
  cases t with
  | nil =>
    cases ts with
    | nil => simp [Text.join]
    | cons u us => simp [Text.join]
  | cons c t =>
    have hc : c ≠ '/' := fun heq => hslash (by simp [heq])
    cases ts with
    | nil => simpa [Text.join] using hc
    | cons u us => simpa [Text.join] using hc

theorem lead_congr {q : Path} {us : List Text} (hpieces : Text.pieces p.text = t :: ts)
    (hpieces' : Text.pieces q.text = t :: us) (h : t = [] → (ts = [] ↔ us = [])) :
    q.lead = p.lead := by
  have habs : q.isAbsolute = p.isAbsolute := by
    rw [Bool.eq_iff_iff, isAbsolute_of_pieces hpieces, isAbsolute_of_pieces hpieces']
    exact and_congr_right fun ht => not_congr (h ht).symm
  rw [lead, lead, habs, hpieces, hpieces']
  rfl

theorem exists_first (hp : p.text ≠ []) :
    ∃ t ts first, Text.pieces p.text = t :: ts ∧ p.parts = first :: partsFrom (t.length + 1) ts ∧
      first.start = 0 ∧
      (p.isAbsolute = false → t ≠ [] ∧ first.stop = t.length) ∧
      p.lead ++ (named [t]).map Component.ofName = [first.component] := by
  obtain ⟨t, ts, hpieces⟩ := List.exists_cons_of_ne_nil (Text.splitBy_ne_nil (· == '/') p.text)
  have hpieces : Text.pieces p.text = t :: ts := hpieces
  cases habs : p.isAbsolute with
  | true =>
    obtain ⟨rfl, hne⟩ := (isAbsolute_of_pieces hpieces).1 habs
    refine ⟨[], ts, ⟨0, 1, .root⟩, hpieces, ?_, rfl, by simp, by simp [lead, habs, named]⟩
    rw [parts_of_absolute habs, hpieces, partsFrom, if_pos rfl]
    simp
  | false =>
    have hparts : p.parts = partsFrom 0 (t :: ts) := by
      rw [parts, habs, ← hpieces]
      rfl
    have hne : t ≠ [] := by
      rintro rfl
      by_cases hts : ts = []
      · subst hts
        exact hp (by rw [← Text.join_pieces p.text, hpieces]; rfl)
      · have := (isAbsolute_of_pieces hpieces).2 ⟨rfl, hts⟩
        simp [habs] at this
    by_cases hdot : t = ['.']
    · subst hdot
      refine ⟨['.'], ts, ⟨0, 1, .here⟩, hpieces, ?_, rfl,
        fun _ => ⟨hne, rfl⟩, by simp [lead, habs, hpieces, named]⟩
      rw [hparts, partsFrom]
      simp
    · refine ⟨t, ts, ⟨0, t.length, Component.ofName t⟩, hpieces, ?_, rfl, fun _ => ⟨hne, rfl⟩, ?_⟩
      · rw [hparts, partsFrom_cons_of_not_idle 0 (not_or.2 ⟨hne, hdot⟩), Nat.zero_add]
      · rw [named_cons_of_not_idle (not_or.2 ⟨hne, hdot⟩)]
        simp [lead, habs, hpieces, hdot, named]

theorem components_eq (p : Path) :
    p.components = p.lead ++ (named (Text.pieces p.text)).map Component.ofName := by
  by_cases hp : p.text = []
  · obtain rfl : p = ⟨[]⟩ := ext_text hp
    rfl
  · obtain ⟨t, ts, first, hpieces, hparts, -, -, hfirst⟩ := exists_first hp
    rw [components, hparts, List.map_cons, map_component_partsFrom (by omega), hpieces,
      ← List.singleton_append (x := t), named_append, List.map_append, ← List.append_assoc, hfirst]
    rfl

theorem exists_last_part (ht : ¬Idle t) (ts : List Text) :
    ∃ us b, t :: ts = t :: us ++ b ∧ (∀ n ∈ b, Idle n) ∧ ∃ c l, t :: us = c ++ [l] ∧ ¬Idle l := by
  obtain ⟨a, b, hab, hb, hend⟩ := exists_idle_end (t :: ts)
  cases hend with
  | inl hnil =>
    rw [hnil, List.nil_append] at hab
    exact absurd (hb t (hab ▸ List.mem_cons_self)) ht
  | inr hlast =>
    obtain ⟨c, l, rfl, hl⟩ := hlast
    cases c with
    | nil =>
      obtain ⟨rfl, -⟩ := List.cons.inj hab
      exact ⟨[], b, hab, hb, [], t, rfl, hl⟩
    | cons v c =>
      obtain ⟨rfl, -⟩ := List.cons.inj hab
      exact ⟨c ++ [l], b, hab, hb, t :: c, l, rfl, hl⟩

theorem text_span_partsFrom {us c : List Text} {l : Text} (ha : 0 < width a) (ht : ¬Idle t)
    (hpieces : Text.pieces p.text = a ++ (t :: us) ++ b) (hb : ∀ n ∈ b, Idle n)
    (hlast : t :: us = c ++ [l]) (hl : ¬Idle l) :
    (p.span (partsFrom (width a) (t :: us ++ b))).text = Text.join ['/'] (t :: us) := by
  have hparts : partsFrom (width a) (t :: us ++ b) = partsFrom (width a) (t :: us) := by
    rw [partsFrom_append, partsFrom_idle (by omega) hb, List.append_nil]
  rw [hparts]
  refine text_span (x := ⟨width a, width a + t.length, Component.ofName t⟩)
    (y := ⟨width a + width c, width a + width c + l.length, Component.ofName l⟩)
      (List.cons_ne_nil t us) hpieces ?_ rfl
    ?_ ?_
  · rw [partsFrom_cons_of_not_idle _ ht]
    rfl
  · rw [hlast]
    exact getLast?_partsFrom_concat _ c hl
  · rw [hlast, width_append, width_cons, width_nil]
    simp only
    omega

theorem lead_eq_nil (hpieces : Text.pieces p.text = t :: ts) (ht : ¬Idle t) : p.lead = [] := by
  have hrelative : p.isAbsolute = false := by
    rw [← Bool.not_eq_true, isAbsolute_of_pieces hpieces]
    exact fun h => ht (.inl h.1)
  have hdot : t ≠ ['.'] := fun h => ht (.inr h)
  rw [lead, hrelative, hpieces]
  simp [hdot]

theorem components_span_drop (hk : k + 1 < p.parts.length) :
    (p.span (p.parts.drop (k + 1))).lead = [] ∧
      (p.span (p.parts.drop (k + 1))).components = p.components.drop (k + 1) := by
  have hp : p.text ≠ [] := by
    intro hnil
    obtain rfl : p = ⟨[]⟩ := ext_text hnil
    exact absurd hk (Nat.not_lt_zero _)
  obtain ⟨u, us, first, hpieces, hparts, -, -, -⟩ := exists_first hp
  rw [hparts, List.length_cons, Nat.add_lt_add_iff_right] at hk
  obtain ⟨a, t, c, rfl, ht, hdrop⟩ := exists_drop_partsFrom (by omega) hk
  have hrest : p.parts.drop (k + 1) = partsFrom (width (u :: a)) (t :: c) := by
    rw [hparts, List.drop_succ_cons, hdrop, width_cons]
  -- What is left ends where the last part ends.
  obtain ⟨m, b, hsplit, hb, e, l, hlast, hl⟩ := exists_last_part ht c
  rw [hsplit] at hpieces hrest
  have hslash : ∀ n ∈ t :: m, '/' ∉ n := by
    intro n hn
    refine Text.noSlash_of_mem_pieces (t := p.text) ?_
    rw [hpieces]
    exact List.mem_cons_of_mem _ (List.mem_append_right _ (List.mem_append_left _ hn))
  have htext : (p.span (p.parts.drop (k + 1))).text = Text.join ['/'] (t :: m) := by
    rw [hrest]
    exact text_span_partsFrom (by rw [width_cons]; omega) ht (by simpa using hpieces) hb hlast hl
  have hleft : Text.pieces (p.span (p.parts.drop (k + 1))).text = t :: m := by
    rw [htext, Text.pieces_join (List.cons_ne_nil t m) hslash]
  have hlead := lead_eq_nil hleft ht
  refine ⟨hlead, ?_⟩
  rw [components_eq, hlead, List.nil_append, hleft, components, ← List.map_drop, hrest,
    map_component_partsFrom (by rw [width_cons]; omega), named_append, named_idle hb,
    List.append_nil]

theorem components_trimmed (p : Path) : p.trimmed.components = p.components := by
  cases habs : p.isAbsolute with
  | true =>
    rw [components_of_absolute (isAbsolute_trimmed habs), components_of_absolute habs,
      steps_trimmed habs]
  | false =>
    by_cases hp : p.text = []
    · obtain rfl : p = ⟨[]⟩ := ext_text hp
      rfl
    obtain ⟨t, ts, first, hpieces, hparts, hstart, hrelative, -⟩ := exists_first hp
    obtain ⟨ht, hstop⟩ := hrelative habs
    obtain ⟨a, b, rfl, hb, hend⟩ := exists_idle_end ts
    have hparts : p.parts = first :: partsFrom (t.length + 1) a := by
      rw [hparts, partsFrom_append, partsFrom_idle (by omega) hb, List.append_nil]
    have hslash : ∀ n ∈ t :: a, '/' ∉ n := fun n hn =>
      Text.noSlash_of_mem_pieces (t := p.text) (by
        rw [hpieces, ← List.cons_append]
        exact List.mem_append_left _ hn)
    have htext : p.trimmed.text = Text.join ['/'] (t :: a) := by
      have hhead : p.parts.head? = some first := by rw [hparts]; rfl
      cases hend with
      | inl hnil =>
        subst hnil
        refine text_span (a := []) (b := b) (y := first) (List.cons_ne_nil t []) hpieces hhead
          hstart (by rw [hparts]; rfl) ?_
        rw [hstop, width_cons, width_nil]
        omega
      | inr hlast =>
        obtain ⟨c, l, rfl, hl⟩ := hlast
        refine text_span (a := []) (b := b)
          (y := ⟨t.length + 1 + width c, t.length + 1 + width c + l.length, Component.ofName l⟩)
            (List.cons_ne_nil t _)
          (by simpa using hpieces) hhead hstart
            (by rw [hparts, List.getLast?_cons, getLast?_partsFrom_concat _ c hl]; rfl) ?_
        simp only [width_cons, width_append, width_nil]
        omega
    have hleft : Text.pieces p.trimmed.text = t :: a := by
      rw [htext, Text.pieces_join (List.cons_ne_nil t a) hslash]
    rw [components_eq, components_eq p, lead_congr hpieces hleft fun hnil => absurd hnil ht, hleft,
      hpieces, ← List.cons_append, named_append (t :: a), named_idle hb, List.append_nil]

theorem components_of_parent? {p q : Path} (hp : p.isAbsolute) (h : p.parent? = some q) :
    q.text <+: p.text ∧ ∃ n, p.components = q.components ++ [Component.ofName n] := by
  obtain ⟨a, b, hpieces, htext, -, hend, hparts⟩ := exists_parts hp
  cases hend with
  | inl hnil =>
    subst hnil
    simp [parent?, hparts, partsFrom] at h
  | inr hlast =>
    obtain ⟨c, t, rfl, ht⟩ := hlast
    -- The front up to the last part, with what is idle at its end.
    have hfront : (Path.mk ('/' :: Text.join ['/'] c)).isAbsolute := rfl
    have hparts' : (Path.mk ('/' :: Text.join ['/'] c)).parts = ⟨0, 1, .root⟩ :: partsFrom 1 c := by
      have hslash : ∀ n ∈ c, '/' ∉ n := fun n hn =>
        Text.noSlash_of_mem_pieces (t := p.text) (by rw [hpieces]; simp [hn])
      rw [parts_of_absolute hfront, show '/' :: Text.join ['/'] c = [] ++ '/' ::
        Text.join ['/'] c from rfl,
        Text.pieces_append_slash]
      by_cases hc : c = []
      · subst hc
        rfl
      · rw [Text.pieces_join hc hslash]
        rfl
    have hprefix : (Path.mk ('/' :: Text.join ['/'] c)).text <+: p.text := by
      rw [htext, List.append_assoc, List.cons_prefix_cons]
      refine ⟨rfl, ?_⟩
      by_cases hc : c = []
      · simp [hc, Text.join]
      · rw [Text.join_append _ hc (by simp), List.append_assoc]
        exact List.prefix_append _ _
    have hcut : p.parts = (Path.mk ('/' :: Text.join ['/'] c)).parts ++
        [⟨1 + width c, 1 + width c + t.length, Component.ofName t⟩] := by
      rw [hparts, hparts', partsFrom_append, partsFrom_cons_of_not_idle _ ht]
      rfl
    have hq : q = (Path.mk ('/' :: Text.join ['/'] c)).trimmed := by
      have hroot : Component.ofName t ≠ .root := by
        rw [Component.ofName]
        split <;> simp
      have hlast : p.parts.getLast? = some ⟨1 + width c, 1 + width c + t.length,
          Component.ofName t⟩ := by simp [hcut]
      rw [← span_of_prefix hfront hprefix]
      rw [parent?, hlast] at h
      split at h
      · simp_all
      · simp_all
      · simpa [hcut] using h.symm
    subst hq
    refine ⟨(trimmed_isPrefix hfront).trans hprefix, t, ?_⟩
    rw [components_trimmed, components, components, hcut, List.map_append]
    rfl

theorem parts_eq_nil_iff : p.parts = [] ↔ p.text = [] := by
  constructor
  · intro h
    by_contra hp
    obtain ⟨t, ts, first, -, hparts, -⟩ := exists_first hp
    rw [h] at hparts
    cases hparts
  · intro h
    obtain rfl : p = ⟨[]⟩ := ext_text h
    rfl

theorem components_of_stripPrefix? {rest : Path} (h : p.stripPrefix? source = some rest) :
    p.components = source.components ++ rest.components ∧ (source.text ≠ [] → rest.lead = []) := by
  have hlength (q : Path) : q.parts.length = q.components.length := (List.length_map _).symm
  rw [stripPrefix?] at h
  split at h
  · next hpre =>
    cases h
    obtain ⟨more, hmore⟩ := List.isPrefixOf_iff_prefix.1 hpre
    have hdrop : p.components.drop source.parts.length = more := by
      rw [hlength, ← hmore, List.drop_left]
    cases hk : source.parts.length with
    | zero =>
      have hnil := List.length_eq_zero_iff.1 hk
      refine ⟨?_, fun hne => absurd (parts_eq_nil_iff.1 hnil) hne⟩
      have hsource : source.components = [] := by
        rw [components, hnil]
        rfl
      rw [List.drop_zero, hsource, List.nil_append]
      exact (components_trimmed p).symm
    | succ k =>
      rw [hk] at hdrop
      by_cases hlt : k + 1 < p.parts.length
      · obtain ⟨hlead, hrest⟩ := components_span_drop hlt
        exact ⟨by rw [hrest, hdrop, hmore], fun _ => hlead⟩
      · rw [List.drop_eq_nil_of_le (Nat.le_of_not_lt hlt)]
        have hnone : more = [] := by
          rw [← hdrop, components, ← List.map_drop, List.drop_eq_nil_of_le (Nat.le_of_not_lt hlt)]
          rfl
        exact ⟨by rw [← hmore, hnone]; rfl, fun _ => rfl⟩
  · cases h

theorem exists_stripPrefix? (hpre : source.components <+: p.components)
    (hne : source.components ≠ p.components) :
    ∃ rest, p.stripPrefix? source = some rest ∧ rest.components ≠ [] ∧
      p.components = source.components ++ rest.components := by
  have hstrip : p.stripPrefix? source = some (p.span (p.parts.drop source.parts.length)) := by
    rw [stripPrefix?, if_pos (List.isPrefixOf_iff_prefix.2 hpre)]
  obtain ⟨hcomponents, -⟩ := components_of_stripPrefix? hstrip
  refine ⟨_, hstrip, fun hnil => ?_, hcomponents⟩
  rw [hnil, List.append_nil] at hcomponents
  exact hne hcomponents.symm

theorem components_join_of_relative {rest : Path} (hp : p.text ≠ [])
    (habs : rest.isAbsolute = false) :
    (p.join rest).components = p.components ++ (named (Text.pieces rest.text)).map
    Component.ofName := by
  have htext : (p.join rest).text = p.stemText ++ rest.text := by
    rw [join_of_relative habs, front, if_neg hp]
  obtain ⟨a, -, hpieces, hcut⟩ := pieces_stemText_append p rest.text
  rw [← htext] at hpieces
  obtain ⟨t, ts, ha⟩ := List.exists_cons_of_ne_nil (Text.splitBy_ne_nil (· == '/') a)
  have ha : Text.pieces a = t :: ts := ha
  rw [ha, List.cons_append] at hpieces
  have hmore : ts ++ Text.pieces rest.text ≠ [] :=
    fun h => Text.splitBy_ne_nil (· == '/') rest.text (List.append_eq_nil_iff.1 h).2
  -- A slash at the end of the base is a piece more, which is idle.
  obtain ⟨us, hus, hnamed⟩ : ∃ us, Text.pieces p.text = t :: us ∧
    named (t :: us) = named (t :: ts) := by
    cases hcut with
    | inl hsame => exact ⟨ts, hsame.trans ha, rfl⟩
    | inr hslash =>
      rw [ha, List.cons_append] at hslash
      refine ⟨ts ++ [[]], hslash, ?_⟩
      rw [← List.cons_append, named_append]
      simp [named]
  have hroot : t = [] → (us = [] ↔ ts ++ Text.pieces rest.text = []) := by
    rintro rfl
    refine ⟨fun hnil => ?_, fun hnil => absurd hnil hmore⟩
    subst hnil
    exact absurd (by rw [← Text.join_pieces p.text, hus]; rfl) hp
  rw [components_eq, components_eq p, lead_congr hus hpieces hroot, hus, hpieces, hnamed,
    ← List.cons_append, named_append, List.map_append, List.append_assoc]

theorem components_join {rest : Path} (hp : p.text ≠ []) (hrest : rest.lead = []) :
    (p.join rest).components = p.components ++ rest.components := by
  have habs : rest.isAbsolute = false := by
    cases habs : rest.isAbsolute with
    | true => simp [lead, habs] at hrest
    | false => rfl
  rw [components_join_of_relative hp habs, components_eq rest, hrest, List.nil_append]

theorem components_join_of_stripPrefix? {rest : Path} (h : p.stripPrefix? source = some rest) :
    (source.join rest).components = source.components ++ rest.components := by
  obtain ⟨-, hlead⟩ := components_of_stripPrefix? h
  by_cases hs : source.text = []
  · obtain rfl : source = ⟨[]⟩ := ext_text hs
    have hjoin : join ⟨[]⟩ rest = rest := by
      rw [join]
      split
      · rfl
      · rw [if_pos (by simp)]
        rfl
    rw [hjoin]
    rfl
  · exact components_join hs (hlead hs)

theorem components_join_nil (p : Path) : (p.join ⟨[]⟩).components = p.components := by
  have hstrip : p.stripPrefix? p = some ⟨[]⟩ := by
    rw [stripPrefix?, if_pos (List.isPrefixOf_iff_prefix.2 (List.prefix_refl _)), List.drop_length]
    rfl
  rw [components_join_of_stripPrefix? hstrip]
  exact List.append_nil _

theorem components_joinText {n : Text} (hn : Plain n) (p : Path) :
    (p.joinText n).components = p.components ++ [Component.ofName n] := by
  have hname : (Path.mk n).lead = [] ∧ (Path.mk n).components = [Component.ofName n] := by
    have hlead : (Path.mk n).lead = [] := by
      rw [lead, isAbsolute_of_noSlash hn.noSlash, Text.pieces_of_noSlash hn.noSlash]
      simp [hn.ne_dot]
    refine ⟨hlead, ?_⟩
    rw [components_eq, hlead, Text.pieces_of_noSlash hn.noSlash]
    simp [named, hn.ne_nil, hn.ne_dot]
  by_cases hp : p.text = []
  · obtain rfl : p = ⟨[]⟩ := ext_text hp
    rw [joinText, join, isAbsolute_of_noSlash hn.noSlash]
    exact hname.2
  · rw [joinText, components_join hp hname.1, hname.2]

theorem components_below {ns : List Text} (hns : ∀ n ∈ ns, Plain n) (p : Path) :
    (p.descend ns).components = p.components ++ ns.map Component.ofName := by
  induction ns generalizing p with
  | nil => simp
  | cons n ns ih =>
    rw [descend_cons, ih fun m hm => hns m (List.mem_cons_of_mem _ hm),
      components_joinText (hns n List.mem_cons_self)]
    simp

end Path
end StaticSite
