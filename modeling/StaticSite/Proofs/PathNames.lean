import Mathlib.Data.List.Infix
import StaticSite.Path

/-! The names in a path. What joining, splitting and taking the parent do to the text of a path is
said here once in terms of lists of names, so that nothing later looks at slashes. -/
namespace StaticSite

/-- A name that an entry of a directory can have. -/
structure ValidName (t : Text) : Prop where
  ne_nil : t ≠ []
  noSlash : '/' ∉ t
  ne_dot : t ≠ ['.']
  ne_dots : t ≠ ['.', '.']

instance (t : Text) : Decidable (ValidName t) :=
  decidable_of_iff (t ≠ [] ∧ '/' ∉ t ∧ t ≠ ['.'] ∧ t ≠ ['.', '.'])
    ⟨fun ⟨a, b, c, d⟩ => ⟨a, b, c, d⟩, fun h => ⟨h.ne_nil, h.noSlash, h.ne_dot, h.ne_dots⟩⟩

def ValidNames (names : List Text) : Prop := ∀ n ∈ names, ValidName n

instance (names : List Text) : Decidable (ValidNames names) :=
  inferInstanceAs (Decidable (∀ n ∈ names, ValidName n))

theorem ValidNames.append {a b : List Text} (ha : ValidNames a) (hb : ValidNames b) :
    ValidNames (a ++ b) := by
  intro n hn
  cases List.mem_append.1 hn with
  | inl h => exact ha n h
  | inr h => exact hb n h

theorem ValidNames.of_append {a b : List Text} (h : ValidNames (a ++ b)) :
    ValidNames a ∧ ValidNames b :=
  ⟨fun n hn => h n (List.mem_append_left b hn), fun n hn => h n (List.mem_append_right a hn)⟩

theorem ValidNames.of_cons {n : Text} {ns : List Text} (h : ValidNames (n :: ns)) :
    ValidName n ∧ ValidNames ns :=
  ⟨h n (by simp), fun m hm => h m (by simp [hm])⟩

namespace Text

theorem splitBy_ne_nil (sep : Char → Bool) (t : Text) : splitBy sep t ≠ [] := by
  cases t with
  | nil => simp [splitBy]
  | cons c t =>
    rw [splitBy]
    split
    · simp
    · split <;> simp

theorem splitBy_append_cons (sep : Char → Bool) (a b : Text) {c : Char} (h : sep c = true) :
    splitBy sep (a ++ c :: b) = splitBy sep a ++ splitBy sep b := by
  induction a with
  | nil => simp [splitBy, h]
  | cons d a ih =>
    simp only [List.cons_append, splitBy, ih]
    by_cases hd : sep d = true
    · simp [hd]
    · simp only [hd, Bool.false_eq_true, if_false]
      cases hs : splitBy sep a with
      | nil => exact absurd hs (splitBy_ne_nil sep a)
      | cons p ps => simp

theorem splitBy_of_none {sep : Char → Bool} {t : Text} (h : ∀ c ∈ t, sep c = false) :
    splitBy sep t = [t] := by
  induction t with
  | nil => rfl
  | cons c t ih =>
    have hc : sep c = false := h c (by simp)
    have ht : splitBy sep t = [t] := ih fun d hd => h d (by simp [hd])
    simp [splitBy, hc, ht]

theorem splitBy_of_notMem {c : Char} {t : Text} (h : c ∉ t) : splitBy (· == c) t = [t] :=
  splitBy_of_none fun _ hd => beq_false_of_ne fun heq => h (heq ▸ hd)

theorem splitBy_append_of_notMem {c : Char} {t : Text} (h : c ∉ t) (rest : Text) :
    splitBy (· == c) (t ++ c :: rest) = t :: splitBy (· == c) rest := by
  rw [splitBy_append_cons _ _ _ (by simp), splitBy_of_notMem h]
  rfl

theorem takeWhile_eq_self {c : Char} {t : Text} (h : c ∉ t) : t.takeWhile (· != c) = t := by
  induction t with
  | nil => rfl
  | cons d t ih =>
    obtain ⟨hd, ht⟩ := not_or.1 (List.mem_cons.not.1 h)
    rw [List.takeWhile_cons_of_pos (by simpa using Ne.symm hd), ih ht]

theorem takeWhile_append_cons {c : Char} {t : Text} (h : c ∉ t) (rest : Text) :
    (t ++ c :: rest).takeWhile (· != c) = t := by
  induction t with
  | nil => exact List.takeWhile_cons_of_neg (by simp)
  | cons d t ih =>
    obtain ⟨hd, ht⟩ := not_or.1 (List.mem_cons.not.1 h)
    rw [List.cons_append, List.takeWhile_cons_of_pos (by simpa using Ne.symm hd), ih ht]

theorem reverse_takeWhile_append {c : Char} {t : Text} (h : c ∉ t) (front : Text) :
    ((front ++ c :: t).reverse.takeWhile (· != c)).reverse = t := by
  have hreverse : (front ++ c :: t).reverse = t.reverse ++ c :: front.reverse := by simp
  rw [hreverse, takeWhile_append_cons (by simpa using h), List.reverse_reverse]

theorem mem_splitBy {sep : Char → Bool} {t p : Text} (h : p ∈ splitBy sep t) :
    ∀ c ∈ p, sep c = false := by
  induction t generalizing p with
  | nil => simp_all [splitBy]
  | cons d t ih =>
    rw [splitBy] at h
    split at h
    · cases List.mem_cons.1 h with
      | inl hsame =>
        subst hsame
        simp
      | inr h => exact ih h
    next hd =>
      split at h
      next hs => exact absurd hs (splitBy_ne_nil sep t)
      next q qs hs =>
        cases List.mem_cons.1 h with
        | inl he =>
          subst he
          intro c hc
          cases List.mem_cons.1 hc with
          | inl heq =>
            subst heq
            simpa using hd
          | inr hc => exact ih (by simp [hs]) c hc
        | inr h => exact ih (by simp [hs, h])

def pieces (t : Text) : List Text := splitBy (· == '/') t

theorem pieces_append_slash (a b : Text) : pieces (a ++ '/' :: b) = pieces a ++ pieces b :=
  splitBy_append_cons _ a b (by simp)

theorem pieces_of_noSlash {t : Text} (h : '/' ∉ t) : pieces t = [t] := splitBy_of_notMem h

theorem noSlash_of_mem_pieces {t p : Text} (h : p ∈ pieces t) : '/' ∉ p := by
  intro hs
  have := mem_splitBy h '/' hs
  simp at this

theorem join_cons (sep t : Text) {ts : List Text} (h : ts ≠ []) :
    join sep (t :: ts) = t ++ sep ++ join sep ts := by
  cases ts with
  | nil => exact absurd rfl h
  | cons u us => rfl

theorem join_append (sep : Text) {a b : List Text} (ha : a ≠ []) (hb : b ≠ []) :
    join sep (a ++ b) = join sep a ++ sep ++ join sep b := by
  induction a with
  | nil => exact absurd rfl ha
  | cons t a ih =>
    cases a with
    | nil => simp [join_cons sep t hb, join]
    | cons u a =>
      rw [List.cons_append, join_cons sep t (by simp), ih (by simp), join_cons sep t (by simp)]
      simp

theorem splitBy_join {c : Char} {ts : List Text} (hne : ts ≠ []) (h : ∀ t ∈ ts, c ∉ t) :
    splitBy (· == c) (join [c] ts) = ts := by
  induction ts with
  | nil => exact absurd rfl hne
  | cons t ts ih =>
    have ht : c ∉ t := h t (by simp)
    cases ts with
    | nil => exact splitBy_of_notMem ht
    | cons u us =>
      have htail := ih (by simp) fun k hk => h k (by simp [hk])
      rw [join_cons _ _ (by simp), List.append_assoc, List.singleton_append,
        splitBy_append_of_notMem ht, htail]

theorem join_splitBy (c : Char) (t : Text) : join [c] (splitBy (· == c) t) = t := by
  induction t with
  | nil => rfl
  | cons d t ih =>
    have hne := splitBy_ne_nil (· == c) t
    rw [splitBy]
    split
    next hd =>
      have hd : d = c := by simpa using hd
      rw [join_cons _ _ hne, ih, hd]
      rfl
    next hd =>
      split
      next hs => exact absurd hs hne
      next p ps hs =>
        rw [hs] at ih
        cases ps with
        | nil => simpa [join] using ih
        | cons q qs => simpa [join] using ih

theorem pieces_join {names : List Text} (hne : names ≠ []) (h : ∀ n ∈ names, '/' ∉ n) :
    pieces (join ['/'] names) = names :=
  splitBy_join hne h

theorem join_pieces (t : Text) : join ['/'] (pieces t) = t := join_splitBy '/' t

theorem mem_join_iff {sep : Text} {ts : List Text} {c : Char} (hc : c ∉ sep) :
    c ∈ join sep ts ↔ ∃ t ∈ ts, c ∈ t := by
  induction ts with
  | nil => simp [join]
  | cons t ts ih =>
    by_cases hnil : ts = []
    · subst hnil
      simp [join]
    · rw [join_cons sep t hnil, List.mem_append, List.mem_append, ih]
      simp [hc]

theorem byteLength_append (s t : Text) : byteLength (s ++ t) = byteLength s + byteLength t := by
  induction s with
  | nil => simp [byteLength]
  | cons c s ih =>
    simp only [List.cons_append, byteLength]
    omega

theorem byteLength_le_of_sublist {s t : Text} (h : s.Sublist t) : byteLength s ≤ byteLength t := by
  induction h with
  | slnil => exact Nat.le_refl _
  | cons c h ih =>
    rw [byteLength]
    omega
  | cons_cons c h ih =>
    rw [byteLength, byteLength]
    omega

theorem byteLength_pos {t : Text} (h : t ≠ []) : 0 < byteLength t := by
  cases t with
  | nil => exact absurd rfl h
  | cons c t =>
    have hpos := c.utf8Size_pos
    rw [byteLength]
    omega

theorem exists_last (sep : Char → Bool) (t : Text) :
    ∃ a b, t = a ++ b ∧ (∀ c ∈ b, sep c = false) ∧
      (a = [] ∨ ∃ front c, a = front ++ [c] ∧ sep c = true) := by
  induction t with
  | nil => exact ⟨[], [], rfl, by simp, .inl rfl⟩
  | cons d t ih =>
    obtain ⟨a, b, rfl, hb, rfl | ⟨front, c, rfl, hc⟩⟩ := ih
    · cases hd : sep d with
      | true => exact ⟨[d], b, rfl, hb, .inr ⟨[], d, rfl, hd⟩⟩
      | false => exact ⟨[], d :: b, rfl, List.forall_mem_cons.2 ⟨hd, hb⟩, .inl rfl⟩
    · exact ⟨d :: (front ++ [c]), b, rfl, hb, .inr ⟨d :: front, c, rfl, hc⟩⟩

theorem exists_last_of_mem {c : Char} {t : Text} (h : c ∈ t) : ∃ a b, t = a ++ c :: b ∧ c ∉ b := by
  obtain ⟨a, b, rfl, hb, hlast⟩ := exists_last (· == c) t
  have hnone : c ∉ b := fun hmem => by simpa using hb c hmem
  rcases hlast with rfl | ⟨front, d, rfl, hd⟩
  · exact absurd h hnone
  · obtain rfl : d = c := by simpa using hd
    exact ⟨front, b, by simp, hnone⟩

end Text

namespace Path

theorem ext_text {p q : Path} (h : p.text = q.text) : p = q := by
  cases p
  cases q
  simp_all

def ofNames (names : List Text) : Path := ⟨Text.join ['/'] names⟩

def descend (p : Path) (names : List Text) : Path := names.foldl joinText p

@[simp] theorem descend_nil (p : Path) : p.descend [] = p := rfl

@[simp] theorem descend_cons (p : Path) (n : Text) (ns : List Text) :
    p.descend (n :: ns) = (p.joinText n).descend ns := rfl

theorem descend_append (p : Path) (a b : List Text) :
    p.descend (a ++ b) = (p.descend a).descend b :=
  List.foldl_append

theorem descend_concat (p : Path) (ns : List Text) (n : Text) :
    p.descend (ns ++ [n]) = (p.descend ns).joinText n :=
  descend_append p ns [n]

def stemText (p : Path) : Text := if p.text.getLast? = some '/' then p.text else p.text ++ ['/']

theorem isAbsolute_iff {p : Path} : p.isAbsolute ↔ ∃ t, p.text = '/' :: t := by
  rw [isAbsolute]
  cases p.text with
  | nil => simp
  | cons c t => simp

theorem pieces_of_absolute {p : Path} (hp : p.isAbsolute) :
    ∃ t, p.text = '/' :: t ∧ Text.pieces p.text = [] :: Text.pieces t := by
  obtain ⟨t, ht⟩ := isAbsolute_iff.1 hp
  refine ⟨t, ht, ?_⟩
  rw [ht]
  exact Text.pieces_append_slash [] t

theorem isAbsolute_of_noSlash {t : Text} (h : '/' ∉ t) : (Path.mk t).isAbsolute = false := by
  cases t with
  | nil => rfl
  | cons c t =>
    have hc : c ≠ '/' := fun he => h (by simp [he])
    simp [isAbsolute, hc]

/-- The text before what is joined: of the empty path nothing, of any other one that up to a
slash. -/
def front (p : Path) : Text := if p.text = [] then [] else p.stemText

theorem join_of_relative {q : Path} (hq : q.isAbsolute = false) (p : Path) :
    p.join q = ⟨p.front ++ q.text⟩ := by
  unfold join front stemText
  by_cases hp : p.text = []
  · simp [hq, hp]
  · by_cases hl : p.text.getLast? = some '/' <;> simp [hq, hp, hl]

theorem front_of_absolute {p : Path} (hp : p.isAbsolute) : p.front = p.stemText := by
  obtain ⟨t, ht⟩ := isAbsolute_iff.1 hp
  rw [front, if_neg (by simp [ht])]

theorem text_join_of_relative {p q : Path} (hp : p.isAbsolute) (hq : q.isAbsolute = false) :
    (p.join q).text = p.stemText ++ q.text := by
  rw [join_of_relative hq, front_of_absolute hp]

theorem isAbsolute_join_left {p q : Path} (hp : p.isAbsolute) : (p.join q).isAbsolute := by
  cases hq : q.isAbsolute with
  | true => simp [join, hq]
  | false =>
    obtain ⟨t, ht⟩ := isAbsolute_iff.1 hp
    refine isAbsolute_iff.2 ?_
    rw [text_join_of_relative hp hq, stemText]
    by_cases hl : p.text.getLast? = some '/'
    · exact ⟨t ++ q.text, by rw [if_pos hl, ht]; rfl⟩
    · exact ⟨t ++ ['/'] ++ q.text, by rw [if_neg hl, ht]; simp⟩

theorem isAbsolute_join_of_relative {p q : Path} (hp : p.isAbsolute = false)
    (hq : q.isAbsolute = false) :
    (p.join q).isAbsolute = false := by
  rw [join_of_relative hq]
  by_cases hnil : p.text = []
  · simpa [front, hnil] using hq
  · rw [isAbsolute] at hp ⊢
    rw [front, if_neg hnil, stemText]
    by_cases hl : p.text.getLast? = some '/'
    · simpa [hl, List.head?_append_of_ne_nil _ hnil] using hp
    · simpa [hl, List.head?_append_of_ne_nil _ hnil] using hp

theorem mem_front {p : Path} {c : Char} (h : c ∈ p.front) : c ∈ p.text ∨ c = '/' := by
  rw [front, stemText] at h
  split at h
  · cases h
  · split at h
    · exact .inl h
    · simpa using h

theorem front_mk_front (p : Path) : (Path.mk p.front).front = p.front := by
  unfold front stemText
  by_cases hp : p.text = []
  · simp [hp]
  · by_cases hl : p.text.getLast? = some '/' <;> simp [hp, hl]

theorem front_mk_append (a : Text) {b : Text} (hb : b ≠ []) :
    (Path.mk (a ++ b)).front = a ++ (Path.mk b).front := by
  have hlast : (a ++ b).getLast? = b.getLast? := List.getLast?_append_of_ne_nil a hb
  unfold front stemText
  by_cases hl : b.getLast? = some '/' <;> simp [hlast, hl, hb]

theorem join_assoc (p q r : Path) : (p.join q).join r = p.join (q.join r) := by
  have hroot {x : Path} (hx : x.isAbsolute) (p : Path) : p.join x = x := by rw [join, if_pos hx]
  cases hr : r.isAbsolute with
  | true => rw [hroot hr, hroot hr, hroot hr]
  | false =>
    cases hq : q.isAbsolute with
    | true => rw [hroot hq, hroot (isAbsolute_join_left hq)]
    | false =>
      rw [join_of_relative (isAbsolute_join_of_relative hq hr) p, join_of_relative hq p,
        join_of_relative hr, join_of_relative hr q]
      by_cases hnil : q.text = []
      · have hq : q = ⟨[]⟩ := ext_text hnil
        rw [hnil, List.append_nil, front_mk_front, hq]
        rfl
      · rw [front_mk_append p.front hnil, List.append_assoc]

theorem join_left_cancel {p q r : Path} (hq : q.isAbsolute = false) (hr : r.isAbsolute = false)
    (h : p.join q = p.join r) : q = r := by
  rw [join_of_relative hq, join_of_relative hr] at h
  exact ext_text (List.append_cancel_left (congrArg text h))

theorem pieces_stemText_append (p : Path) (t : Text) :
    ∃ a, p.stemText = a ++ ['/'] ∧ Text.pieces (p.stemText ++ t) = Text.pieces a ++ Text.pieces t ∧
      (Text.pieces p.text = Text.pieces a ∨ Text.pieces p.text = Text.pieces a ++ [[]]) := by
  rw [stemText]
  by_cases hl : p.text.getLast? = some '/'
  · obtain ⟨a, ha⟩ := List.getLast?_eq_some_iff.1 hl
    refine ⟨a, by rw [if_pos hl, ha], ?_, .inr ?_⟩
    · rw [if_pos hl, ha, List.append_assoc, List.singleton_append, Text.pieces_append_slash]
    · rw [ha, Text.pieces_append_slash]
      rfl
  · refine ⟨p.text, by rw [if_neg hl], ?_, .inl rfl⟩
    rw [if_neg hl, List.append_assoc, List.singleton_append, Text.pieces_append_slash]

theorem steps_eq (p : Path) : p.steps = (Text.pieces p.text).filter (· ≠ []) := rfl

theorem steps_join {p q : Path} (hp : p.isAbsolute) (hq : q.isAbsolute = false) :
    (p.join q).steps = p.steps ++ q.steps := by
  obtain ⟨a, -, hpieces, hcut⟩ := pieces_stemText_append p q.text
  rw [steps_eq, text_join_of_relative hp hq, hpieces, List.filter_append, steps_eq p, steps_eq q]
  rcases hcut with h | h <;> simp [h]

/-- What a name adds to a path. A name may also be two dots here. -/
structure Plain (n : Text) : Prop where
  ne_nil : n ≠ []
  noSlash : '/' ∉ n
  ne_dot : n ≠ ['.']

end Path

theorem ValidName.plain {n : Text} (h : ValidName n) :
    Path.Plain n := ⟨h.ne_nil, h.noSlash, h.ne_dot⟩

namespace Path

theorem Plain.singleton {n : Text} (h : Plain n) : ∀ m ∈ [n], Plain m := by
  intro m hm
  rw [List.mem_singleton] at hm
  exact hm ▸ h

theorem plain_dots : Plain ['.', '.'] := ⟨by simp, by decide, by simp⟩

theorem steps_mk_of_plain {n : Text} (h : Plain n) : (Path.mk n).steps = [n] := by
  rw [steps_eq, Text.pieces_of_noSlash h.noSlash]
  simp [h.ne_nil]

theorem steps_joinText {p : Path} (hp : p.isAbsolute) {n : Text} (hn : Plain n) :
    (p.joinText n).steps = p.steps ++ [n] := by
  rw [joinText, steps_join hp (isAbsolute_of_noSlash hn.noSlash), steps_mk_of_plain hn]

theorem isAbsolute_joinText {p : Path} (hp : p.isAbsolute) (n : Text) : (p.joinText n).isAbsolute :=
  isAbsolute_join_left hp

theorem isAbsolute_descend {p : Path} (hp : p.isAbsolute) (ns : List Text) :
    (p.descend ns).isAbsolute := by
  induction ns generalizing p with
  | nil => exact hp
  | cons n ns ih => exact ih (isAbsolute_joinText hp n)

theorem steps_descend {p : Path} (hp : p.isAbsolute) {ns : List Text} (hns : ∀ n ∈ ns, Plain n) :
    (p.descend ns).steps = p.steps ++ ns := by
  induction ns generalizing p with
  | nil => simp
  | cons n ns ih =>
    have hn : Plain n := hns n (by simp)
    rw [descend_cons, ih (isAbsolute_joinText hp n) fun m hm => hns m (by simp [hm]),
      steps_joinText hp hn]
    simp

theorem text_joinText {p : Path} (hp : p.isAbsolute) {n : Text} (hn : Plain n) :
    (p.joinText n).text = p.stemText ++ n :=
  text_join_of_relative hp (isAbsolute_of_noSlash hn.noSlash)

theorem getLast?_of_plain {n : Text} (hn : Plain n) (a : Text) : (a ++ n).getLast? ≠ some '/' := by
  rw [List.getLast?_append_of_ne_nil a hn.ne_nil]
  intro h
  exact hn.noSlash (List.mem_of_getLast? h)

theorem wantsDirectory_joinText {p : Path} (hp : p.isAbsolute) {n : Text} (hn : Plain n) :
    (p.joinText n).wantsDirectory = false := by
  rw [wantsDirectory, text_joinText hp hn]
  simpa using getLast?_of_plain hn p.stemText

theorem ofNames_noAbsolute {ns : List Text} (hns : ∀ n ∈ ns, Plain n) :
    (ofNames ns).isAbsolute = false := by
  cases ns with
  | nil => rfl
  | cons n ns =>
    have hn : Plain n := hns n (by simp)
    have hhead : (ofNames (n :: ns)).text.head? = n.head? := by
      rw [ofNames]
      cases ns with
      | nil => rfl
      | cons m ns =>
        rw [Text.join_cons _ _ (by simp), List.append_assoc,
          List.head?_append_of_ne_nil n hn.ne_nil]
    have := isAbsolute_of_noSlash hn.noSlash
    rwa [isAbsolute, ← hhead] at this

theorem ofNames_inj {a b : List Text} (ha : ValidNames a) (hb : ValidNames b) (hne : a ≠ [])
    (hne' : b ≠ []) (h : ofNames a = ofNames b) : a = b := by
  have hpieces := congrArg (fun p : Path => Text.pieces p.text) h
  simpa [ofNames, Text.pieces_join hne fun n hn => (ha n hn).noSlash,
    Text.pieces_join hne' fun n hn => (hb n hn).noSlash] using hpieces

theorem join_ofNames (p : Path) {ns : List Text} (hne : ns ≠ []) (hns : ∀ n ∈ ns, Plain n) :
    p.join (ofNames ns) = p.descend ns := by
  induction ns generalizing p with
  | nil => exact absurd rfl hne
  | cons n ns ih =>
    cases ns with
    | nil => rfl
    | cons m ns =>
      have hn : Plain n := hns n List.mem_cons_self
      have hlater : ∀ k ∈ m :: ns, Plain k := fun k hk => hns k (List.mem_cons_of_mem n hk)
      have hfront : (Path.mk n).front = n ++ ['/'] := by
        have hlast : n.getLast? ≠ some '/' := getLast?_of_plain hn []
        rw [front, if_neg hn.ne_nil, stemText, if_neg hlast]
      have hcons : ofNames (n :: m :: ns) = (Path.mk n).join (ofNames (m :: ns)) := by
        rw [join_of_relative (ofNames_noAbsolute hlater), hfront, ofNames, ofNames,
          Text.join_cons _ _ (by simp)]
      rw [descend_cons, ← ih (p.joinText n) (by simp) hlater, joinText, join_assoc, hcons]

theorem prefix_front (p : Path) : p.text <+: p.front := by
  rw [front, stemText]
  split
  next hnil => rw [hnil]
  · split
    · exact List.prefix_rfl
    · exact List.prefix_append _ _

theorem prefix_join (p : Path) {q : Path} (hq : q.isAbsolute = false) :
    p.text <+: (p.join q).text := by
  rw [join_of_relative hq]
  exact (prefix_front p).trans (List.prefix_append _ _)

theorem prefix_below (p : Path) {ns : List Text} (h : ∀ n ∈ ns, Plain n) :
    p.text <+: (p.descend ns).text := by
  induction ns generalizing p with
  | nil => exact List.prefix_rfl
  | cons n ns ih =>
    have hn : Plain n := h n List.mem_cons_self
    exact (prefix_join p (isAbsolute_of_noSlash hn.noSlash)).trans
      (ih (p.joinText n) fun m hm => h m (List.mem_cons_of_mem n hm))

theorem text_descend {p : Path} (hp : p.isAbsolute) {ns : List Text} (hne : ns ≠ [])
    (hns : ∀ n ∈ ns, Plain n) :
    (p.descend ns).text = p.stemText ++ Text.join ['/'] ns := by
  rw [← join_ofNames p hne hns, text_join_of_relative hp (ofNames_noAbsolute hns)]
  rfl

end Path
end StaticSite
