import StaticSite.Proofs.Subscriptions
import StaticSite.Proofs.Walking

/-! Two walks, one from below the start of the other. A walk lists a directory with all that a walk
from there would list, unless the directory is a link: a link is listed, and what is behind it is
listed only from the link on. -/
namespace StaticSite

open FileSystem

namespace FileSystem

variable {fs : FileSystem} {p : Path} {q place : Place} {n : Node} {links : Nat} {names : List Text}

theorem walk_of_found (h : fs.walk false links place names = .ok (.found q n))
    (hlink : n.isLink = false) :
    fs.walk true links place names = .ok (.found q n) := by
  fun_induction FileSystem.walk fs false links place names with
  | case1 => simpa [FileSystem.walk] using h
  | case2 links place rest ih =>
    rw [FileSystem.walk, if_pos rfl]
    exact ih h
  | case3 links place rest hdot ih =>
    rw [FileSystem.walk, if_neg hdot, if_pos rfl]
    exact ih h
  | case4 => simp at h
  | case5 => simp at h
  | case6 => simp at h
  | case7 links place name rest hdot hdots hlen t hat ih =>
    rw [FileSystem.walk, if_neg hdot, if_neg hdots, if_neg hlen, hat]
    exact ih h
  | case8 links place name hdot hdots hlen content t hat =>
    rw [FileSystem.walk, if_neg hdot, if_neg hdots, if_neg hlen, hat]
    exact h
  | case9 => simp at h
  | case10 =>
    obtain ⟨-, rfl⟩ : _ ∧ _ := by simpa using h
    simp [Node.isLink] at hlink
  | case11 => simp at h
  | case12 => simp at h
  | case13 =>
    rename_i place name rest hdot hdots hlen target hat hlast links goal hgoal more ih
    rw [FileSystem.walk, if_neg hdot, if_neg hdots, if_neg hlen, hat]
    simp only [Bool.not_true, Bool.and_false, Bool.false_eq_true, if_false]
    rw [if_neg hgoal]
    exact ih h

theorem stat_of_linkStat (h : fs.linkStat p = .ok (q, n)) (hlink : n.isLink = false) :
    fs.stat p = .ok (q, n) := by
  rw [linkStat_eq_ok, find_eq] at h
  rw [stat_eq_ok, find_eq]
  split at h
  · cases h
  · exact walk_of_found h hlink

end FileSystem

namespace ChangeHandler

variable {h : ChangeHandler} {fs : FileSystem} {p q d : Path} {names below : List Text}

/-- That a path goes down from the source by names, and is no link itself. -/
structure Direct (h : ChangeHandler) (fs : FileSystem) (p : Path) : Prop where
  named : ∃ names, names ≠ [] ∧ ValidNames names ∧ p = h.builder.source.descend names
  unlinked : ∀ place target, fs.linkStat p ≠ .ok (place, .link target)

/-- That a directory is among those that are subscribed to with a visible path. -/
def Lists (h : ChangeHandler) (fs : FileSystem) (p d : Path) : Prop :=
  ∃ rel, h.visible? p = some rel ∧ ∃ e ∈ (h.builder.collectIn fs rel).1, e.kind = .directory ∧
    fs.exists_ (h.builder.source.join e.path) ∧
    (h.builder.source.join e.path).components = d.components

/-- That the walk from a directory of the source comes to another one by some names. -/
structure Reaches (h : ChangeHandler) (fs : FileSystem) (names below : List Text) : Prop where
  ne_nil : below ≠ []
  valid : ValidNames (names ++ below)
  directory : fs.isDirectory (h.builder.source.descend (names ++ below))
  there : ∃ place t n, fs.stat (h.builder.source.descend names) = .ok (place, .directory t) ∧
    fs.at? (place ++ below) = some n
  shown : ∀ a, a ≠ [] → a <+: below → h.builder.policy.excludesPath (.ofNames (names ++ a)) = false

theorem lists_iff (hwf : fs.WellFormed) (hs : h.builder.source.isAbsolute) (hne : names ≠ [])
    (hnames : ValidNames names) :
    h.Lists fs (h.builder.source.descend names) d ↔
      (h.visible? (h.builder.source.descend names)).isSome ∧ ∃ below, Reaches h fs names below ∧
        d.components = (h.builder.source.descend (names ++ below)).components := by
  rw [Lists, visible?_descend hs hne hnames]
  have hjoin : h.builder.source.join (.ofNames names) = h.builder.source.descend names :=
    Path.join_ofNames _ hne hnames.plain
  split
  · simp
  simp only [Option.some.injEq, exists_eq_left', Option.isSome_some, true_and]
  constructor
  · rintro ⟨e, he, hkind, -, hd⟩
    obtain ⟨place, t, hstat⟩ := SourceEntry.stat_of_mem_collect he
    obtain ⟨below, n, hbelow, hvalid, hpath, hat, hkindAt, hshown⟩ :=
      (SourceEntry.mem_collect_ofNames_iff hwf hs hnames hstat).1 he
    rw [hkind, SourceEntry.kindAt?_eq_directory] at hkindAt
    rw [hjoin] at hstat
    refine ⟨below, ⟨hbelow, hnames.append hvalid, hkindAt, ⟨place, t, n, hstat, hat⟩, hshown⟩, ?_⟩
    rw [← hd, hpath, Path.join_ofNames _ (by simp [hbelow]) (hnames.append hvalid).plain]
  · rintro ⟨below, hreaches, hd⟩
    obtain ⟨place, t, n, hstat, hat⟩ := hreaches.there
    have hbelow : h.builder.source.join (.ofNames (names ++ below)) =
        h.builder.source.descend (names ++ below) :=
      Path.join_ofNames _ (by simp [hne]) hreaches.valid.plain
    rw [← hjoin] at hstat
    refine ⟨⟨.ofNames (names ++ below), .directory⟩, ?_, rfl, ?_, ?_⟩
    · exact (SourceEntry.mem_collect_ofNames_iff hwf hs hnames hstat).2 ⟨below, n, hreaches.ne_nil,
        hreaches.valid.of_append.2, rfl, hat, SourceEntry.kindAt?_eq_directory.2 hreaches.directory,
        hreaches.shown⟩
    · obtain ⟨r, u, hr⟩ := isDirectory_iff.1 hreaches.directory
      rw [hbelow]
      exact exists_iff.2 ⟨r, _, hr⟩
    · rw [hbelow, hd]

theorem descend_inj (hs : h.builder.source.isAbsolute) {names' : List Text}
    (hnames : ValidNames names) (hnames' : ValidNames names')
    (heq : (h.builder.source.descend names).components =
      (h.builder.source.descend names').components) : names = names' := by
  rw [Path.components_descend hs hnames.plain, Path.components_descend hs hnames'.plain,
    List.append_cancel_left_eq] at heq
  exact Path.Component.ofName_injective.list_map.eq_iff.1 heq

theorem Reaches.stat_eq (hr : Reaches h fs names below) (hwf : fs.WellFormed)
    (hunlinked : ∀ place target, fs.linkStat (h.builder.source.descend (names ++ below)) ≠
      .ok (place, .link target))
    {place : Place} {t : Nat} (hstat : fs.stat (h.builder.source.descend names) =
      .ok (place, .directory t)) :
    ∃ u, fs.stat (h.builder.source.descend (names ++ below)) =
      .ok (place ++ below, .directory u) := by
  obtain ⟨place', t', n, hstat', hat⟩ := hr.there
  obtain ⟨rfl, -⟩ := Prod.mk.inj (Except.ok.inj (hstat.symm.trans hstat'))
  obtain ⟨q, u, hq⟩ := isDirectory_iff.1 hr.directory
  obtain ⟨r, m, hlink⟩ := linkStat_of_stat hq
  obtain ⟨left, hstarts⟩ := exists_starts hstat
  obtain ⟨dirs, last, rfl⟩ := (List.eq_nil_or_concat' below).resolve_left hr.ne_nil
  have hvalid := hr.valid.of_append.2
  obtain ⟨hdirs, hlast⟩ := hvalid.of_append
  have hup : dirs = [] ∨ ∃ t, fs.at? (place ++ dirs) = some (.directory t) := by
    rw [← List.append_assoc] at hat
    exact .inr (hwf.directory_above (by simp) hat)
  have hfind := linkStat_eq_ok.1 hlink
  rw [Path.descend_append, hstarts.find_descend false hr.ne_nil hvalid.plain] at hfind
  split at hfind
  · cases hfind
  obtain ⟨k, -, hsame⟩ := exists_at?_of_walk hwf hdirs (hlast last (by simp)) hup hfind
  obtain ⟨rfl, rfl⟩ := hsame rfl
  have hnoLink : k.isLink = false := by
    cases k with
    | link target => exact absurd hlink (hunlinked _ target)
    | file | directory => rfl
  have hfound := stat_of_linkStat hlink hnoLink
  obtain ⟨-, rfl⟩ := Prod.mk.inj (Except.ok.inj (hq.symm.trans hfound))
  exact ⟨u, hfound⟩

theorem Reaches.append {more : List Text} (hr : Reaches h fs names below) (hwf : fs.WellFormed)
    (hunlinked : ∀ place target, fs.linkStat (h.builder.source.descend (names ++ below)) ≠
      .ok (place, .link target))
    (hmore : Reaches h fs (names ++ below) more) : Reaches h fs names (below ++ more) := by
  obtain ⟨place, t, -, hstat, -⟩ := hr.there
  obtain ⟨u, hbelow⟩ := hr.stat_eq hwf hunlinked hstat
  obtain ⟨place', u', n, hbelow', hat⟩ := hmore.there
  obtain ⟨rfl, -⟩ := Prod.mk.inj (Except.ok.inj (hbelow.symm.trans hbelow'))
  refine ⟨by simp [hr.ne_nil], ?_, ?_, ⟨place, t, n, hstat, by rwa [← List.append_assoc]⟩,
    fun a ha hpre => ?_⟩
  · rw [← List.append_assoc]
    exact hmore.valid
  · rw [← List.append_assoc]
    exact hmore.directory
  · cases List.prefix_or_prefix_of_prefix hpre (List.prefix_append below more) with
    | inl habove => exact hr.shown a ha habove
    | inr hbeyond =>
      obtain ⟨rest, rfl⟩ := hbeyond
      by_cases hrest : rest = []
      · rw [hrest, List.append_nil]
        exact hr.shown below hr.ne_nil (List.prefix_refl below)
      · rw [← List.append_assoc]
        exact hmore.shown rest hrest ((List.prefix_append_right_inj below).1 hpre)

theorem Reaches.of_append {more : List Text} (hr : Reaches h fs names (below ++ more))
    (hwf : fs.WellFormed) (hne : below ≠ []) (hmore : more ≠ []) :
    Reaches h fs (names ++ below) more := by
  obtain ⟨place, t, n, hstat, hat⟩ := hr.there
  obtain ⟨left, hstarts⟩ := exists_starts hstat
  obtain ⟨q, u, hq⟩ := isDirectory_iff.1 hr.directory
  rw [Path.descend_append] at hq
  obtain ⟨v, hlink⟩ := hstarts.linkStat_above hwf hr.valid.of_append.2 hne hmore hat hq
  have hbelow := stat_of_linkStat hlink rfl
  rw [← Path.descend_append] at hbelow
  refine ⟨hmore, ?_, ?_, ⟨place ++ below, v, n, hbelow, by rwa [List.append_assoc]⟩,
    fun a ha hpre => ?_⟩
  · rw [List.append_assoc]
    exact hr.valid
  · rw [List.append_assoc]
    exact hr.directory
  · rw [List.append_assoc]
    exact hr.shown (below ++ a) (by simp [ha]) ((List.prefix_append_right_inj below).2 hpre)

/-! ### By paths -/

theorem Lists.startsWith (hl : h.Lists fs p d) (hwf : fs.WellFormed)
    (hs : h.builder.source.isAbsolute) (hp : h.Direct fs p) :
    d.startsWith p := by
  obtain ⟨names, hne, hnames, rfl⟩ := hp.named
  obtain ⟨-, below, hr, hd⟩ := (lists_iff hwf hs hne hnames).1 hl
  rw [Path.startsWith, hd, Path.descend_append, Path.components_below hr.valid.of_append.2.plain,
    List.isPrefixOf_iff_prefix]
  exact List.prefix_append _ _

theorem Lists.trans (hl : h.Lists fs p q) (hwf : fs.WellFormed) (hs : h.builder.source.isAbsolute)
    (hp : h.Direct fs p) (hq : h.Direct fs q) (hd : h.Lists fs q d) : h.Lists fs p d := by
  obtain ⟨names, hne, hnames, rfl⟩ := hp.named
  obtain ⟨names', hne', hnames', hq'⟩ := hq.named
  obtain ⟨hvisible, below, hr, hcomponents⟩ := (lists_iff hwf hs hne hnames).1 hl
  rw [hq'] at hcomponents
  obtain rfl := descend_inj hs hnames' hr.valid hcomponents
  subst hq'
  obtain ⟨-, more, hmore, hd⟩ := (lists_iff hwf hs hne' hnames').1 hd
  exact (lists_iff hwf hs hne hnames).2
    ⟨hvisible, below ++ more, hr.append hwf hq.unlinked hmore, by rw [hd, List.append_assoc]⟩

theorem Lists.between (hl : h.Lists fs q d) (hwf : fs.WellFormed) (hs : h.builder.source.isAbsolute)
    (hq : h.Direct fs q) (hp : h.Direct fs p) (hvisible : (h.visible? p).isSome)
    (hd : d.startsWith p) (hout : q.startsWith p = false) :
    fs.isDirectory p ∧ (p.components = d.components ∨ h.Lists fs p d) := by
  obtain ⟨names, hne, hnames, rfl⟩ := hq.named
  obtain ⟨names', hne', hnames', rfl⟩ := hp.named
  obtain ⟨-, below, hr, hcomponents⟩ := (lists_iff hwf hs hne hnames).1 hl
  have hbelow (a b : List Text) (ha : ValidNames a) (hb : ValidNames b) :
      (h.builder.source.descend a).startsWith (h.builder.source.descend b) ↔ b <+: a := by
    rw [Path.startsWith, Path.components_descend hs ha.plain, Path.components_descend hs hb.plain,
      List.isPrefixOf_iff_prefix, List.prefix_append_right_inj,
      List.prefix_map_iff_of_injective Path.Component.ofName_injective]
  have habove : names' <+: names ++ below := by
    rw [← hbelow _ _ hr.valid hnames', Path.startsWith, ← hcomponents]
    exact hd
  have hnot : ¬names' <+: names := by
    rw [← hbelow _ _ hnames hnames', hout]
    simp
  obtain ⟨first, rfl⟩ :=
    (List.prefix_or_prefix_of_prefix habove (List.prefix_append names below)).resolve_left hnot
  obtain ⟨more, rfl⟩ := (List.prefix_append_right_inj names).1 habove
  have hfirst : first ≠ [] := by
    rintro rfl
    exact hnot (by simp)
  by_cases hmore : more = []
  · rw [hmore, List.append_nil] at hr hcomponents
    exact ⟨hr.directory, .inl hcomponents.symm⟩
  · have hbeyond := hr.of_append hwf hfirst hmore
    obtain ⟨place, t, -, hstat, -⟩ := hbeyond.there
    refine ⟨isDirectory_iff.2 ⟨place, t, hstat⟩, .inr ?_⟩
    exact (lists_iff hwf hs hne' hnames').2 ⟨hvisible, more, hbeyond,
      by rw [hcomponents, List.append_assoc]⟩

end ChangeHandler
end StaticSite
