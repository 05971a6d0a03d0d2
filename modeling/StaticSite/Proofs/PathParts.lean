import StaticSite.Proofs.PathNames

/-! The parts of a path by its names: where they stand, and what stripping a base, taking the
parent and exchanging an extension leave of the text. -/
namespace StaticSite.Path

/-- How many characters pieces take, each with the slash after it. -/
def width : List Text → Nat
  | [] => 0
  | t :: ts => t.length + 1 + width ts

@[simp] theorem width_nil : width [] = 0 := rfl

@[simp] theorem width_cons (t : Text) (ts : List Text) :
    width (t :: ts) = t.length + 1 + width ts := rfl

theorem width_append (a b : List Text) : width (a ++ b) = width a + width b := by
  induction a with
  | nil => simp
  | cons t a ih =>
    rw [List.cons_append, width_cons, width_cons, ih]
    omega

theorem length_join {ts : List Text} (h : ts ≠ []) :
    (Text.join ['/'] ts).length + 1 = width ts := by
  induction ts with
  | nil => exact absurd rfl h
  | cons t ts ih =>
    cases ts with
    | nil => simp [Text.join]
    | cons u us =>
      have := ih (by simp)
      rw [Text.join_cons _ _ (by simp), width_cons]
      simp only [List.length_append, List.length_cons, List.length_nil] at *
      omega

theorem width_pieces (a : Text) : width (Text.pieces a) = a.length + 1 := by
  rw [Text.pieces, ← length_join (Text.splitBy_ne_nil (· == '/') a), ← Text.pieces,
    Text.join_pieces]

theorem partsFrom_append (i : Nat) (a b : List Text) :
    partsFrom i (a ++ b) = partsFrom i a ++ partsFrom (i + width a) b := by
  induction a generalizing i with
  | nil => simp [partsFrom]
  | cons t a ih =>
    have hpos : i + t.length + 1 + width a = i + (t.length + 1 + width a) := by omega
    simp only [List.cons_append, partsFrom, ih, width_cons, hpos]
    split
    · rfl
    · split
      · split <;> simp
      · simp

def Component.ofName (n : Text) : Component := if n = ['.', '.'] then .up else .name n

theorem Component.ofName_valid {n : Text} (h : ValidName n) : Component.ofName n = .name n := by
  rw [ofName, if_neg h.ne_dots]

def placed (i : Nat) : List Text → List Part
  | [] => []
  | n :: ns => ⟨i, i + n.length, Component.ofName n⟩ :: placed (i + n.length + 1) ns

theorem partsFrom_eq_placed (i : Nat) {ns : List Text} (h : ∀ n ∈ ns, Plain n) :
    partsFrom i ns = placed i ns := by
  induction ns generalizing i with
  | nil => rfl
  | cons n ns ih =>
    have hn : Plain n := h n (by simp)
    rw [partsFrom, placed, if_neg hn.ne_nil, if_neg hn.ne_dot, ih _ fun m hm => h m (by simp [hm])]
    rfl

theorem map_component_placed (i : Nat) (ns : List Text) :
    (placed i ns).map (·.component) = ns.map Component.ofName := by
  induction ns generalizing i with
  | nil => rfl
  | cons n ns ih => simp [placed, ih]

theorem getLast?_placed_concat (i : Nat) (ns : List Text) (n : Text) :
    (placed i (ns ++ [n])).getLast? = some ⟨i + width ns, i + width ns + n.length,
      Component.ofName n⟩ := by
  induction ns generalizing i with
  | nil => simp [placed]
  | cons m ns ih =>
    have hpos : i + m.length + 1 + width ns = i + width (m :: ns) := by
      rw [width_cons]
      omega
    rw [List.cons_append, placed, List.getLast?_cons, ih, hpos]
    rfl

theorem stop_placed (i : Nat) {ns : List Text} (h : ns ≠ []) :
    ∃ s c, (placed i ns).getLast? = some ⟨s, i + (Text.join ['/'] ns).length, c⟩ := by
  have hlen := length_join h
  obtain ⟨ms, m, rfl⟩ := (List.eq_nil_or_concat' ns).resolve_left h
  rw [width_append, width_cons, width_nil] at hlen
  have hstop : i + width ms + m.length = i + (Text.join ['/'] (ms ++ [m])).length := by omega
  exact ⟨_, _, by rw [getLast?_placed_concat, hstop]⟩

theorem parts_of_absolute {p : Path} (hp : p.isAbsolute) :
    p.parts = ⟨0, 1, .root⟩ :: partsFrom 0 (Text.pieces p.text) := by
  rw [parts, if_pos hp]
  rfl

theorem parts_descend {p : Path} (hp : p.isAbsolute) {ns : List Text} (hns : ∀ n ∈ ns, Plain n) :
    (p.descend ns).parts = p.parts ++ placed p.stemText.length ns := by
  by_cases hne : ns = []
  · subst hne
    simp [placed]
  obtain ⟨a, hstem, hpieces, hcut⟩ := pieces_stemText_append p (Text.join ['/'] ns)
  have hlen : width (Text.pieces a) = p.stemText.length := by
    rw [width_pieces, hstem]
    simp
  have hsame : partsFrom 0 (Text.pieces p.text) = partsFrom 0 (Text.pieces a) := by
    cases hcut with
    | inl h => rw [h]
    | inr h =>
      rw [h, partsFrom_append]
      simp [partsFrom]
  rw [parts_of_absolute (isAbsolute_descend hp ns), text_descend hp hne hns, hpieces,
    Text.pieces_join hne fun n hn => (hns n hn).noSlash, partsFrom_append, hlen,
    Nat.zero_add, partsFrom_eq_placed _ hns, parts_of_absolute hp, hsame]
  rfl

theorem components_descend {p : Path} (hp : p.isAbsolute) {ns : List Text}
    (hns : ∀ n ∈ ns, Plain n) :
    (p.descend ns).components = p.components ++ ns.map Component.ofName := by
  rw [components, parts_descend hp hns, List.map_append, map_component_placed]
  rfl

theorem stripPrefix?_descend {p : Path} (hp : p.isAbsolute) {ns : List Text}
    (hns : ∀ n ∈ ns, Plain n) :
    (p.descend ns).stripPrefix? p = some (ofNames ns) := by
  have hcomponents : p.components.isPrefixOf (p.descend ns).components := by
    rw [components_descend hp hns]
    exact List.isPrefixOf_iff_prefix.2 (List.prefix_append _ _)
  rw [stripPrefix?, if_pos hcomponents, parts_descend hp hns, List.drop_left]
  by_cases hne : ns = []
  · subst hne
    rfl
  obtain ⟨s, c, hstop⟩ := stop_placed p.stemText.length hne
  cases ns with
  | nil => exact absurd rfl hne
  | cons n ns =>
    rw [span, hstop, placed, List.head?_cons, text_descend hp hne hns]
    simp only [ofNames, Option.some.injEq, Path.mk.injEq]
    rw [List.take_of_length_le (by simp), List.drop_left]

/-! ### Places -/

theorem text_ofPlace (ns : List Text) : (ofPlace ns).text = '/' :: Text.join ['/'] ns := by
  rw [ofPlace]
  split
  next h =>
    subst h
    rfl
  next h =>
    induction ns with
    | nil => exact absurd rfl h
    | cons n ns ih =>
      cases ns with
      | nil => simp [Text.join]
      | cons m ns =>
        have := ih (by simp)
        rw [Text.join_cons _ _ (by simp)]
        simp only [List.flatMap_cons] at *
        simp [this]

theorem isAbsolute_ofPlace (ns : List Text) : (ofPlace ns).isAbsolute :=
  isAbsolute_iff.2 ⟨_, text_ofPlace ns⟩

theorem ofPlace_eq_descend {ns : List Text} (h : ∀ n ∈ ns, Plain n) :
    ofPlace ns = (ofPlace []).descend ns := by
  by_cases hne : ns = []
  · subst hne
    rfl
  refine ext_text ?_
  rw [text_descend (isAbsolute_ofPlace []) hne h, text_ofPlace]
  rfl

theorem steps_ofPlace {ns : List Text} (h : ∀ n ∈ ns, Plain n) : (ofPlace ns).steps = ns := by
  rw [ofPlace_eq_descend h, steps_descend (isAbsolute_ofPlace []) h]
  rfl

theorem components_ofPlace {ns : List Text} (h : ∀ n ∈ ns, Plain n) :
    (ofPlace ns).components = .root :: ns.map Component.ofName := by
  rw [ofPlace_eq_descend h, components_descend (isAbsolute_ofPlace []) h]
  rfl

theorem wantsDirectory_ofPlace {ns : List Text} (hne : ns ≠ []) (h : ∀ n ∈ ns, Plain n) :
    (ofPlace ns).wantsDirectory = false := by
  obtain ⟨ms, m, rfl⟩ := (List.eq_nil_or_concat' ns).resolve_left hne
  rw [ofPlace_eq_descend h, descend_concat]
  exact wantsDirectory_joinText (isAbsolute_descend (isAbsolute_ofPlace []) ms) (h m (by simp))

end StaticSite.Path

namespace StaticSite

theorem ValidNames.plain {ns : List Text} (h : ValidNames ns) :
    ∀ n ∈ ns, Path.Plain n := fun n hn => (h n hn).plain

namespace Path

theorem startsWith_ofPlace {a b : List Text} (ha : ValidNames a) (hb : ValidNames b) :
    (ofPlace a).startsWith (ofPlace b) ↔ b <+: a := by
  have hmap {ns : List Text} (h : ValidNames ns) :
      ns.map Component.ofName = ns.map Component.name :=
    List.map_congr_left fun n hn => Component.ofName_valid (h n hn)
  rw [startsWith, components_ofPlace ha.plain, components_ofPlace hb.plain, hmap ha, hmap hb,
    List.isPrefixOf_iff_prefix, List.cons_prefix_cons]
  simp only [true_and]
  exact List.prefix_map_iff_of_injective fun x y hxy => by simpa using hxy

/-! ### Parents -/

/-- A piece that is no part of its own. -/
def Idle (t : Text) : Prop := t = [] ∨ t = ['.']

theorem partsFrom_idle {i : Nat} (hi : 0 < i) {ts : List Text} (h : ∀ t ∈ ts, Idle t) :
    partsFrom i ts = [] := by
  induction ts generalizing i with
  | nil => rfl
  | cons t ts ih =>
    have hrest := ih (i := i + t.length + 1) (by omega) fun u hu => h u (by simp [hu])
    rw [partsFrom]
    cases h t (by simp) with
    | inl heq =>
      subst heq
      simpa using hrest
    | inr heq =>
      subst heq
      have hi0 : i ≠ 0 := by omega
      simpa [hi0] using hrest

theorem exists_idle_end (ts : List Text) :
    ∃ a b, ts = a ++ b ∧ (∀ t ∈ b, Idle t) ∧ (a = [] ∨ ∃ c t, a = c ++ [t] ∧ ¬Idle t) := by
  induction ts using List.reverseRecOn with
  | nil => exact ⟨[], [], rfl, by simp, .inl rfl⟩
  | append_singleton ts t ih =>
    by_cases ht : Idle t
    · obtain ⟨a, b, rfl, hb, ha⟩ := ih
      refine ⟨a, b ++ [t], by simp, ?_, ha⟩
      intro u hu
      cases List.mem_append.1 hu with
      | inl hu => exact hb u hu
      | inr hu => rwa [List.mem_singleton.1 hu]
    · exact ⟨ts ++ [t], [], by simp, by simp, .inr ⟨ts, t, rfl, ht⟩⟩

/-- The path without what is idle at its end. -/
def trimmed (p : Path) : Path := p.span p.parts

theorem exists_parts {p : Path} (hp : p.isAbsolute) :
    ∃ a b, Text.pieces p.text = [] :: (a ++ b) ∧ p.text = '/' :: Text.join ['/'] (a ++ b) ∧
      (∀ t ∈ b, Idle t) ∧
      (a = [] ∨ ∃ c t, a = c ++ [t] ∧ ¬Idle t) ∧ p.parts = ⟨0, 1, .root⟩ :: partsFrom 1 a := by
  obtain ⟨t, ht, hpieces⟩ := pieces_of_absolute hp
  obtain ⟨a, b, hab, hb, ha⟩ := exists_idle_end (Text.pieces t)
  refine ⟨a, b, hab ▸ hpieces, by rw [ht, ← hab, Text.join_pieces], hb, ha, ?_⟩
  rw [parts_of_absolute hp, hpieces, hab, partsFrom]
  simp only [if_true, List.length_nil, Nat.zero_add, Nat.add_zero]
  rw [partsFrom_append, partsFrom_idle (by omega) hb, List.append_nil]

theorem trimmed_of_absolute {p : Path} (hp : p.isAbsolute) :
    ∃ a b, Text.pieces p.text = [] :: (a ++ b) ∧ (∀ t ∈ b, Idle t) ∧
      p.trimmed.text = '/' :: Text.join ['/'] a ∧
      (a = [] ∨ ∃ c t, a = c ++ [t] ∧ ¬Idle t) ∧
      ∃ part, p.parts.getLast? = some part ∧ part.stop = 1 + (Text.join ['/'] a).length := by
  obtain ⟨a, b, hpieces, htext, hb, ha, hparts⟩ := exists_parts hp
  have hlast : ∃ part, p.parts.getLast? = some part ∧
      part.stop = 1 + (Text.join ['/'] a).length := by
    cases ha with
    | inl heq =>
      subst heq
      exact ⟨_, by rw [hparts]; rfl, rfl⟩
    | inr h =>
      obtain ⟨c, t, rfl, hidle⟩ := h
      have hlen := length_join (show c ++ [t] ≠ [] by simp)
      rw [width_append, width_cons, width_nil] at hlen
      have hne : t ≠ [] ∧ t ≠ ['.'] := not_or.1 hidle
      refine ⟨⟨1 + width c, 1 + width c + t.length, Component.ofName t⟩, ?_, ?_⟩
      · rw [hparts, partsFrom_append, partsFrom, if_neg hne.1, if_neg hne.2, ← List.cons_append,
          List.getLast?_append]
        rfl
      · show 1 + width c + t.length = _
        omega
  refine ⟨a, b, hpieces, hb, ?_, ha, hlast⟩
  obtain ⟨part, hpart, hstop⟩ := hlast
  have hhead : p.parts.head? = some ⟨0, 1, .root⟩ := by rw [hparts]; rfl
  rw [trimmed, span, hhead, hpart]
  show (p.text.take part.stop).drop 0 = _
  rw [hstop, htext, List.drop_zero, Nat.add_comm 1, List.take_succ_cons]
  by_cases hbne : b = []
  · subst hbne
    simp
  by_cases hane : a = []
  · subst hane
    simp [Text.join]
  · rw [Text.join_append _ hane hbne]
    simp

theorem isAbsolute_trimmed {p : Path} (hp : p.isAbsolute) : p.trimmed.isAbsolute := by
  obtain ⟨a, -, -, -, htext, -⟩ := trimmed_of_absolute hp
  exact isAbsolute_iff.2 ⟨_, htext⟩

theorem steps_trimmed {p : Path} (hp : p.isAbsolute) :
    p.trimmed.steps.filter (· ≠ ['.']) = p.steps.filter (· ≠ ['.']) := by
  obtain ⟨a, b, hpieces, hb, htext, -⟩ := trimmed_of_absolute hp
  have hslash : ∀ n ∈ a, '/' ∉ n := fun n hn =>
    Text.noSlash_of_mem_pieces (t := p.text) (by rw [hpieces]; simp [hn])
  have hidle : (b.filter (· ≠ [])).filter (· ≠ ['.']) = [] := by
    rw [List.filter_filter, List.filter_eq_nil_iff]
    intro t ht
    rcases hb t ht with rfl | rfl <;> simp
  have htrimmed : p.trimmed.steps = a.filter (· ≠ []) := by
    rw [steps_eq, htext]
    by_cases hne : a = []
    · subst hne
      rfl
    · rw [show ('/' :: Text.join ['/'] a) = [] ++ '/' :: Text.join ['/'] a from rfl,
        Text.pieces_append_slash, Text.pieces_join hne hslash]
      rfl
  rw [htrimmed, steps_eq, hpieces, List.filter_cons_of_neg (by simp), List.filter_append,
    List.filter_append, hidle, List.append_nil]

theorem trimmed_isPrefix {p : Path} (hp : p.isAbsolute) : p.trimmed.text <+: p.text := by
  obtain ⟨a, b, hpieces, -, htext, -⟩ := trimmed_of_absolute hp
  rw [htext, ← Text.join_pieces p.text, hpieces]
  rcases eq_or_ne (a ++ b) [] with h | hne
  · obtain ⟨t, -, hone⟩ := pieces_of_absolute hp
    rw [hpieces, h] at hone
    exact absurd (List.tail_eq_of_cons_eq hone).symm (Text.splitBy_ne_nil _ t)
  rw [Text.join_cons _ _ hne, List.nil_append, List.singleton_append, List.cons_prefix_cons]
  refine ⟨rfl, ?_⟩
  by_cases ha : a = []
  · subst ha
    simp [Text.join]
  by_cases hb : b = []
  · subst hb
    simp
  · rw [Text.join_append _ ha hb, List.append_assoc]
    exact List.prefix_append _ _

theorem trimmed_cases {p : Path} (hp : p.isAbsolute) :
    p.trimmed.text = ['/'] ∨ p.trimmed.wantsDirectory = false := by
  obtain ⟨a, b, hpieces, -, htext, ha, -⟩ := trimmed_of_absolute hp
  cases ha with
  | inl heq =>
    subst heq
    exact .inl (by rw [htext]; rfl)
  | inr hcase =>
    obtain ⟨c, t, rfl, hidle⟩ := hcase
    refine .inr ?_
    have hslash : '/' ∉ t := Text.noSlash_of_mem_pieces (t := p.text) (by rw [hpieces]; simp)
    have hplain : Plain t := ⟨fun h => hidle (.inl h), hslash, fun h => hidle (.inr h)⟩
    rw [wantsDirectory, htext]
    by_cases hc : c = []
    · subst hc
      simpa [Text.join] using getLast?_of_plain hplain ['/']
    · rw [Text.join_append _ hc (by simp)]
      simpa [Text.join] using getLast?_of_plain hplain ('/' :: Text.join ['/'] c ++ ['/'])

theorem trimmed_joinText {p : Path} (hp : p.isAbsolute) {n : Text} (hn : Plain n) :
    (p.joinText n).trimmed = p.joinText n := by
  have hparts := parts_descend hp hn.singleton
  refine ext_text ?_
  have hlast : (p.joinText n).parts.getLast? =
      some ⟨p.stemText.length, p.stemText.length + n.length, Component.ofName n⟩ := by
    rw [show p.joinText n = p.descend [n] from rfl, hparts]
    simp [placed]
  have hhead : (p.joinText n).parts.head? = some ⟨0, 1, .root⟩ := by
    rw [parts_of_absolute (isAbsolute_joinText hp n)]
    rfl
  rw [trimmed, span, hhead, hlast]
  show ((p.joinText n).text.take (p.stemText.length + n.length)).drop 0 = _
  rw [text_joinText hp hn, List.drop_zero, List.take_of_length_le (by simp)]

theorem prefix_joinText {p : Path} (hp : p.isAbsolute) {n : Text} (hn : Plain n) :
    p.text <+: (p.joinText n).text := by
  rw [text_joinText hp hn, stemText]
  split
  · exact List.prefix_append _ _
  · rw [List.append_assoc]
    exact List.prefix_append _ _

theorem prefix_descend {p : Path} (hp : p.isAbsolute) {ns : List Text} (hns : ∀ n ∈ ns, Plain n) :
    p.text <+: (p.descend ns).text := by
  induction ns generalizing p with
  | nil => exact List.prefix_rfl
  | cons n ns ih =>
    have hrest := ih (isAbsolute_joinText hp n) fun m hm => hns m (List.mem_cons_of_mem _ hm)
    exact (prefix_joinText hp (hns n List.mem_cons_self)).trans hrest

theorem span_of_prefix {p r : Path} (hr : r.isAbsolute) (h : r.text <+: p.text) :
    p.span r.parts = r.trimmed := by
  obtain ⟨a, b, hpieces, -, htext, -, part, hpart, hstop⟩ := trimmed_of_absolute hr
  have hhead : r.parts.head? = some ⟨0, 1, .root⟩ := by
    rw [parts_of_absolute hr]
    rfl
  have hle : part.stop ≤ r.text.length := by
    have := (trimmed_isPrefix hr).length_le
    rw [htext] at this
    simp only [List.length_cons] at this
    omega
  obtain ⟨more, hmore⟩ := h
  rw [trimmed, span, span, hhead, hpart]
  show Path.mk ((p.text.take part.stop).drop 0) = Path.mk ((r.text.take part.stop).drop 0)
  rw [← hmore, List.take_append_of_le_length hle]

theorem parent?_joinText {p : Path} (hp : p.isAbsolute) {n : Text} (hn : Plain n) :
    (p.joinText n).parent? = some p.trimmed := by
  have hparts : (p.joinText n).parts =
      p.parts ++ [⟨p.stemText.length, p.stemText.length + n.length, Component.ofName n⟩] :=
    parts_descend hp hn.singleton
  have hlast : (p.joinText n).parts.getLast? =
      some ⟨p.stemText.length, p.stemText.length + n.length, Component.ofName n⟩ := by
    simp [hparts]
  have hroot : Component.ofName n ≠ .root := by
    rw [Component.ofName]
    split <;> simp
  have hspan : (p.joinText n).span p.parts = p.trimmed := span_of_prefix hp (prefix_joinText hp hn)
  rw [parent?, hlast]
  cases hc : Component.ofName n with
  | root => exact absurd hc hroot
  | here | up | name => simp [hparts, hspan]

theorem parent?_descend_concat {p : Path} (hp : p.isAbsolute) (ns : List Text) {n : Text}
    (hn : Plain n) :
    (p.descend (ns ++ [n])).parent? = some (p.descend ns).trimmed := by
  rw [descend_concat]
  exact parent?_joinText (isAbsolute_descend hp ns) hn

end Path
end StaticSite
