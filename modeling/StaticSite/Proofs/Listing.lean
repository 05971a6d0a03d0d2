import StaticSite.Build.Basic
import StaticSite.Proofs.Loading

/-! What the walk through the source tree lists: the visible paths, by their names below the
source. -/
namespace StaticSite

open FileSystem

variable {fs : FileSystem} {policy : ExclusionPolicy} {source : Path}
  {refused : Refusals}

theorem FileSystem.eq_of_child {p q : Place} {name : Text} {n k : Node}
    (hcond : (decide (q.length = p.length + 1) && p.isPrefixOf q) = true)
    (h : q.getLast?.map (fun name => (name, n)) = some (name, k)) : q = p ++ [name] ∧ n = k := by
  simp only [Bool.and_eq_true, decide_eq_true_eq, List.isPrefixOf_iff_prefix] at hcond
  obtain ⟨hlen, r, rfl⟩ := hcond
  have hr : r.length = 1 := by
    rw [List.length_append] at hlen
    omega
  obtain ⟨x, rfl⟩ := List.length_eq_one_iff.1 hr
  simpa using h

theorem FileSystem.mem_entries {p : Place} {name : Text} {n : Node} :
    (name, n) ∈ fs.entries p ↔ (p ++ [name], n) ∈ fs.nodes := by
  rw [entries, List.mem_mergeSort, List.mem_filterMap]
  constructor
  · intro hcase
    obtain ⟨⟨q, m⟩, hmem, h⟩ := hcase
    simp only at h
    split at h
    next hcond =>
      obtain ⟨rfl, rfl⟩ := eq_of_child hcond h
      exact hmem
    · simp at h
  · intro hmem
    refine ⟨_, hmem, ?_⟩
    simp [List.isPrefixOf_iff_prefix]

theorem FileSystem.WellFormed.nodup_entries (h : fs.WellFormed) (p : Place) :
    (fs.entries p).Nodup := by
  rw [entries, (List.mergeSort_perm _ _).nodup_iff]
  refine h.once.of_map.filterMap ?_
  rintro ⟨q, n⟩ ⟨r, m⟩ ⟨name, k⟩ hq hr
  simp only at hq hr
  split at hq
  case isFalse => simp at hq
  split at hr
  case isFalse => simp at hr
  next hcond hcond' =>
    obtain ⟨rfl, rfl⟩ := eq_of_child hcond hq
    obtain ⟨rfl, rfl⟩ := eq_of_child hcond' hr
    rfl

namespace SourceEntry

/-- No path from a directory down along some names is left out. -/
def Shown (policy : ExclusionPolicy) (source dir : Path) (names : List Text) : Prop :=
  ∀ a, a ≠ [] → a <+: names → policy.excludesPath (relative source (dir.descend a)) = false

theorem shown_cons {dir : Path} {name : Text} {names : List Text} :
    Shown policy source dir (name :: names) ↔
      policy.excludesPath (relative source (dir.joinText name)) = false ∧
        Shown policy source (dir.joinText name) names := by
  constructor
  · intro h
    refine ⟨h [name] (by simp) (by simp), fun a ha hpre => ?_⟩
    exact h (name :: a) (by simp) ((List.prefix_cons_inj name).2 hpre)
  · intro hcase a ha hpre
    obtain ⟨hname, hrest⟩ := hcase
    cases a with
    | nil => exact absurd rfl ha
    | cons x a =>
      obtain ⟨rfl, htail⟩ := List.cons_prefix_cons.1 hpre
      by_cases hne : a = []
      · subst hne
        exact hname
      · exact hrest a hne htail

theorem shown_nil {dir : Path} : Shown policy source dir [] := fun _ hne hpre =>
  absurd (List.prefix_nil.1 hpre) hne

theorem shown_concat {dir : Path} {name : Text} {names : List Text} :
    Shown policy source dir (names ++ [name]) ↔ Shown policy source dir names ∧
      policy.excludesPath (relative source (dir.descend (names ++ [name]))) = false := by
  constructor
  · intro h
    exact ⟨fun a ha hpre => h a ha (hpre.trans (List.prefix_append ..)),
      h _ (by simp) List.prefix_rfl⟩
  · intro hcase a ha hpre
    obtain ⟨h, hlast⟩ := hcase
    rcases List.prefix_concat_iff.1 hpre with rfl | hpre
    · exact hlast
    · exact h a ha hpre

@[simp] theorem mem_listed {walk : List (Except Log.Line SourceEntry)} {e : SourceEntry} :
    e ∈ listed walk ↔ .ok e ∈ walk := by
  rw [listed, List.mem_filterMap]
  constructor
  · rintro ⟨_ | x, hx, he⟩
    · cases he
    · cases he
      exact hx
  · exact fun h => ⟨_, h, rfl⟩

@[simp] theorem mem_logged {walk : List (Except Log.Line SourceEntry)} {line : Log.Line} :
    line ∈ logged walk ↔ .error line ∈ walk := by
  rw [logged, List.mem_filterMap]
  constructor
  · rintro ⟨_ | x, hx, he⟩
    · cases he
      exact hx
    · cases he
  · exact fun h => ⟨_, h, rfl⟩

@[simp] theorem seenKind?_none (fs : FileSystem) (p : Path) : seenKind? fs .none p = kindAt? fs p :=
  rfl

/-- All directories from one down to the one that holds what some names lead to can be read. -/
def Readable (refused : Refusals) (dir : Path) (names : List Text) : Prop :=
  ∀ a, a <+: names → a ≠ names → refusal? refused (dir.descend a) = none

theorem readable_nil {dir : Path} : Readable refused dir [] := fun _ ha hne =>
  absurd (List.prefix_nil.1 ha) hne

theorem readable_cons {dir : Path} {name : Text} {names : List Text} :
    Readable refused dir (name :: names) ↔
      refusal? refused dir = none ∧ Readable refused (dir.joinText name) names := by
  constructor
  · intro h
    refine ⟨h [] (List.nil_prefix) (by simp), fun a ha hne => ?_⟩
    exact h (name :: a) ((List.prefix_cons_inj name).2 ha) (by simpa using hne)
  · intro hcase a ha hne
    obtain ⟨htop, hrest⟩ := hcase
    cases a with
    | nil => exact htop
    | cons x a =>
      obtain ⟨rfl, htail⟩ := List.cons_prefix_cons.1 ha
      exact hrest a htail (by simpa using hne)

theorem readable_concat {dir : Path} {name : Text} {names : List Text} :
    Readable refused dir (names ++ [name]) ↔
      Readable refused dir names ∧ refusal? refused (dir.descend names) = none := by
  constructor
  · intro h
    refine ⟨fun a ha _ => h a (ha.trans (List.prefix_append ..)) fun heq => ?_,
      h names (List.prefix_append ..) (by simp)⟩
    have hlen := ha.length_le
    rw [heq, List.length_append, List.length_singleton] at hlen
    omega
  · intro hcase a ha hne
    obtain ⟨h, hlast⟩ := hcase
    by_cases heq : a = names
    · rw [heq]
      exact hlast
    · exact h a ((List.prefix_concat_iff.1 ha).resolve_left hne) heq

theorem below_of_refused {fuel : Nat} {dir : Path} {place : Place} {e : IoError}
    (h : refusal? refused dir = some e) :
    below fs policy source refused (fuel + 1) dir place = [.error (refusalLine dir e)] := by
  rw [below, h]

theorem mem_below_succ {fuel : Nat} {dir : Path} {place : Place}
    {found : Except Log.Line SourceEntry} (h : refusal? refused dir = none) :
    found ∈ below fs policy source refused (fuel + 1) dir place ↔
      ∃ name n, (place ++ [name], n) ∈ fs.nodes ∧
        policy.excludesPath (relative source (dir.joinText name)) = false ∧
        ((∃ kind, seenKind? fs refused (dir.joinText name) = some kind ∧
            found = .ok ⟨relative source (dir.joinText name), kind⟩) ∨
          n.isDirectory ∧
            found ∈ below fs policy source refused fuel (dir.joinText name) (place ++ [name])) := by
  rw [below, h]
  simp only [List.mem_flatMap, Prod.exists, mem_entries]
  refine exists_congr fun name => exists_congr fun n => and_congr_right fun _ => ?_
  cases policy.excludesPath (relative source (dir.joinText name)) with
  | true => simp
  | false =>
    simp only [Bool.false_eq_true, if_false, true_and, List.mem_append, Option.mem_toList,
      Option.map_eq_some_iff, eq_comm (b := found)]
    refine or_congr_right ?_
    cases n.isDirectory <;> simp

/-- What the walk comes to in one directory: that it cannot be read, or an entry in it. -/
inductive Comes (fs : FileSystem) (policy : ExclusionPolicy) (source : Path) (refused : Refusals)
    (dir : Path) (place : Place) : Except Log.Line SourceEntry → Prop
  | unreadable {cause : IoError} (refusal : refusal? refused dir = some cause) :
      Comes fs policy source refused dir place (.error (refusalLine dir cause))
  | entry {name : Text} {n : Node} {kind : EntryKind} (readable : refusal? refused dir = none)
      (there : fs.at? (place ++ [name]) = some n)
      (shown : policy.excludesPath (relative source (dir.joinText name)) = false)
      (sees : seenKind? fs refused (dir.joinText name) = some kind) :
      Comes fs policy source refused dir place (.ok ⟨relative source (dir.joinText name), kind⟩)

theorem mem_below_iff_comes (hfs : fs.WellFormed) {fuel : Nat} {dir : Path} {place : Place}
    {found : Except Log.Line SourceEntry} :
    found ∈ below fs policy source refused fuel dir place ↔
      ∃ names, names.length < fuel ∧
        (names = [] ∨ ∃ t, fs.at? (place ++ names) = some (.directory t)) ∧
        Readable refused dir names ∧ Shown policy source dir names ∧
        Comes fs policy source refused (dir.descend names) (place ++ names) found := by
  -- From the top down, as the walk goes: each directory passed takes one name off the front.
  induction fuel generalizing dir place with
  | zero => simp [below]
  | succ fuel ih =>
    cases hrefused : refusal? refused dir with
    | some cause =>
      rw [below_of_refused hrefused, List.mem_singleton]
      constructor
      · rintro rfl
        exact ⟨[], by simp, .inl rfl, readable_nil, shown_nil, .unreadable hrefused⟩
      · intro hcase
        obtain ⟨names, -, -, hreadable, -, hcomes⟩ := hcase
        cases names with
        | nil =>
          cases hcomes with
          | unreadable hcause =>
            rw [Path.descend_nil, hrefused, Option.some.injEq] at hcause
            rw [hcause, Path.descend_nil]
          | entry hnone => simp [hrefused] at hnone
        | cons name names =>
          have hnone := (readable_cons.1 hreadable).1
          simp [hrefused] at hnone
    | none =>
      rw [mem_below_succ hrefused]
      constructor
      · intro hcase
        obtain ⟨name, n, hmem, hshown, ⟨kind, hkind, rfl⟩ | ⟨hdir, hbelow⟩⟩ := hcase
        · have hat := hfs.at?_of_mem (by simp) hmem
          exact ⟨[], by simp, .inl rfl, readable_nil, shown_nil,
            .entry hrefused (by simpa using hat) hshown hkind⟩
        · obtain ⟨names, hlen, hat, hreadable, hrest, hcomes⟩ := ih.1 hbelow
          rw [List.append_assoc] at hat hcomes
          refine ⟨name :: names, by simpa using hlen, .inr ?_,
            readable_cons.2 ⟨hrefused, hreadable⟩, shown_cons.2 ⟨hshown, hrest⟩, hcomes⟩
          rcases hat with rfl | hat
          · have hn := hfs.at?_of_mem (by simp) hmem
            cases n with
            | directory t => exact ⟨t, hn⟩
            | file | link => cases hdir
          · exact hat
      · intro hcase
        obtain ⟨names, hlen, hat, hreadable, hshown, hcomes⟩ := hcase
        cases names with
        | nil =>
          cases hcomes with
          | unreadable hcause => simp [hrefused] at hcause
          | entry hnone hthere hname hkind =>
            rw [List.append_nil] at hthere
            exact ⟨_, _, mem_nodes_of_at? (by simp) hthere, hname, .inl ⟨_, hkind, rfl⟩⟩
        | cons name names =>
          obtain ⟨hname, hrest⟩ := shown_cons.1 hshown
          obtain ⟨t, ht⟩ := hat.resolve_left (by simp)
          have hcons : place ++ name :: names = place ++ [name] ++ names := by simp
          rw [hcons] at ht hcomes
          obtain ⟨u, hu⟩ : ∃ u, fs.at? (place ++ [name]) = some (.directory u) := by
            by_cases hne : names = []
            · subst hne
              exact ⟨t, by simpa using ht⟩
            · exact hfs.directory_above hne ht
          exact ⟨name, _, mem_nodes_of_at? (by simp) hu, hname, .inr ⟨rfl, ih.2
            ⟨names, by simpa using hlen, .inr ⟨t, ht⟩, (readable_cons.1 hreadable).2, hrest,
              hcomes⟩⟩⟩

theorem mem_below_iff (hfs : fs.WellFormed) {fuel : Nat} {dir : Path} {place : Place}
    {e : SourceEntry} :
    .ok e ∈ below fs policy source refused fuel dir place ↔
      ∃ names, names ≠ [] ∧ names.length ≤ fuel ∧ (∃ n, fs.at? (place ++ names) = some n) ∧
        Readable refused dir names ∧ Shown policy source dir names ∧
        seenKind? fs refused (dir.descend names) = some e.kind ∧
        e.path = relative source (dir.descend names) := by
  rw [mem_below_iff_comes hfs]
  constructor
  · intro hcase
    obtain ⟨names, hlen, -, hreadable, hshown, hcomes⟩ := hcase
    cases hcomes with
    | @entry name n kind hnone hthere hname hkind =>
      rw [← Path.descend_concat] at hname hkind ⊢
      exact ⟨names ++ [name], by simp, by simpa using Nat.succ_le_of_lt hlen,
        ⟨n, by simpa using hthere⟩,
        readable_concat.2 ⟨hreadable, hnone⟩, shown_concat.2 ⟨hshown, hname⟩, hkind, rfl⟩
  · intro hcase
    obtain ⟨names, hne, hlen, ⟨n, hn⟩, hreadable, hshown, hkind, hpath⟩ := hcase
    obtain ⟨above, name, rfl⟩ := (List.eq_nil_or_concat' names).resolve_left hne
    obtain ⟨habove, hnone⟩ := readable_concat.1 hreadable
    obtain ⟨hrest, hname⟩ := shown_concat.1 hshown
    rw [← List.append_assoc] at hn
    rw [List.length_append, List.length_singleton] at hlen
    refine ⟨above, hlen, .inr (hfs.directory_above (by simp) hn), habove, hrest, ?_⟩
    rw [Path.descend_concat] at hname hkind hpath
    obtain ⟨path, kind⟩ := e
    obtain rfl : path = _ := hpath
    exact .entry hnone hn hname hkind

theorem error_mem_below_iff (hfs : fs.WellFormed) {fuel : Nat} {dir : Path} {place : Place}
    {line : Log.Line} :
    .error line ∈ below fs policy source refused fuel dir place ↔
      ∃ names cause, names.length < fuel ∧
        (names = [] ∨ ∃ t, fs.at? (place ++ names) = some (.directory t)) ∧
        Readable refused dir names ∧ Shown policy source dir names ∧
        refusal? refused (dir.descend names) = some cause ∧
        line = refusalLine (dir.descend names) cause := by
  rw [mem_below_iff_comes hfs]
  refine exists_congr fun names => ⟨?_, ?_⟩
  · intro hcase
    obtain ⟨hlen, hat, hreadable, hshown, hcomes⟩ := hcase
    cases hcomes with
    | unreadable hcause => exact ⟨_, hlen, hat, hreadable, hshown, hcause, rfl⟩
  · intro hcase
    obtain ⟨cause, hlen, hat, hreadable, hshown, hcause, rfl⟩ := hcase
    exact ⟨hlen, hat, hreadable, hshown, .unreadable hcause⟩

theorem readable_of_kindAt? {dir : Path} {names : List Text} {kind : EntryKind}
    (h : ∀ n ∈ names, Path.Plain n) (hkind : kindAt? fs (dir.descend names) = some kind) :
    Readable .none dir names := by
  intro a ha _
  obtain ⟨n, hn, -⟩ := Option.bind_eq_some_iff.1 hkind
  obtain ⟨q, hstat⟩ := node?_eq_some.1 hn
  obtain ⟨-, -, hshort⟩ := textRefusal?_eq_none.1 (find_of_ok (stat_eq_ok.1 hstat)).1
  obtain ⟨rest, rfl⟩ := ha
  have hbegins : (dir.descend a).text <+: (dir.descend (a ++ rest)).text := by
    rw [Path.descend_append]
    exact Path.prefix_below _ fun n hn => h n (List.mem_append_right _ hn)
  have hlen := Text.byteLength_le_of_sublist hbegins.sublist
  rw [refusal?, if_neg (by omega), Refusals.none]

theorem descend_top {names : List Text} (hs : source.isAbsolute) (hne : names ≠ [])
    (h : ∀ n ∈ names, Path.Plain n) : (source.join ⟨[]⟩).descend names = source.descend names := by
  have htext : (source.join ⟨[]⟩).text = source.stemText := by
    rw [Path.text_join_of_relative hs rfl, List.append_nil]
  have htop : (source.join ⟨[]⟩).isAbsolute := Path.isAbsolute_join_left hs
  have hlast : source.stemText.getLast? = some '/' := by
    rw [Path.stemText]
    split
    next h => exact h
    · simp
  have hstem : (source.join ⟨[]⟩).stemText = source.stemText := by
    rw [Path.stemText, htext, if_pos hlast]
  exact Path.ext_text (by rw [Path.text_descend htop hne h, Path.text_descend hs hne h, hstem])

theorem relative_descend (hs : source.isAbsolute) {names : List Text}
    (h : ∀ n ∈ names, Path.Plain n) :
    relative source (source.descend names) = .ofNames names := by
  rw [relative, Path.stripPrefix?_descend hs h]
  rfl

theorem length_lt_fuel (hfs : fs.WellFormed) {place : Place} {names : List Text} {n : Node}
    (h : fs.at? (place ++ names) = some n) : names.length ≤ fs.nodes.length + 1 := by
  have := hfs.length_le_nodes h
  rw [List.length_append] at this
  omega

theorem descend_join_ofNames {above names : List Text} (hs : source.isAbsolute) (hne : names ≠ [])
    (h : ∀ n ∈ above ++ names, Path.Plain n) :
    (source.join (.ofNames above)).descend names = source.descend (above ++ names) := by
  by_cases habove : above = []
  · subst habove
    exact descend_top hs hne h
  · rw [Path.join_ofNames _ habove fun n hn => h n (List.mem_append_left _ hn),
      ← Path.descend_append]

theorem seen_of_stat {p : Path} {place : Place} {n : Node} (hlook : refused.lookup p = none)
    (h : fs.stat p = .ok (place, n)) : seen fs refused p = .ok (place, n) := by
  obtain ⟨r, m, hlink⟩ := linkStat_of_stat h
  simp only [seen, hlink, hlook, h]

theorem of_seen {p : Path} {place : Place} {n : Node} (h : seen fs refused p = .ok (place, n)) :
    refused.lookup p = none ∧ fs.stat p = .ok (place, n) := by
  rw [seen] at h
  split at h
  · cases h
  · cases h
  next hlook => exact ⟨hlook, h⟩

theorem collect_of_stat {rel : Path} {place : Place} {t : Nat}
    (hlook : refused.lookup (source.join rel) = none)
    (h : fs.stat (source.join rel) = .ok (place, .directory t)) :
    collect fs policy source rel refused =
      (listed (below fs policy source refused (fs.nodes.length + 1) (source.join rel) place),
        logged (below fs policy source refused (fs.nodes.length + 1) (source.join rel) place)) := by
  simp only [collect, walkFrom, seen_of_stat hlook h]

theorem mem_collect_ofNames_iff (hfs : fs.WellFormed) (hs : source.isAbsolute) {above : List Text}
    (habove : ValidNames above) {place : Place} {t : Nat}
    (hstat : fs.stat (source.join (.ofNames above)) = .ok (place, .directory t)) {e : SourceEntry} :
    e ∈ (collect fs policy source (.ofNames above) .none).1 ↔
      ∃ names n, names ≠ [] ∧ ValidNames names ∧ e.path = .ofNames (above ++ names) ∧
        fs.at? (place ++ names) = some n ∧
        kindAt? fs (source.descend (above ++ names)) = some e.kind ∧
        ∀ a, a ≠ [] → a <+: names → policy.excludesPath (.ofNames (above ++ a)) = false := by
  have hpath {names a : List Text} (hvalid : ValidNames names) (ha : a ≠ []) (hpre : a <+: names) :
      (source.join (.ofNames above)).descend a = source.descend (above ++ a) ∧
        relative source (source.descend (above ++ a)) = .ofNames (above ++ a) := by
    have hplain : ∀ m ∈ above ++ a, Path.Plain m :=
      (habove.append fun m hm => hvalid m (hpre.subset hm)).plain
    exact ⟨descend_join_ofNames hs ha hplain, relative_descend hs hplain⟩
  have hshown {names : List Text} (hvalid : ValidNames names) :
      Shown policy source (source.join (.ofNames above)) names ↔
        ∀ a, a ≠ [] → a <+: names → policy.excludesPath (.ofNames (above ++ a)) = false := by
    refine forall_congr' fun a => forall_congr' fun ha => forall_congr' fun hpre => ?_
    obtain ⟨hdown, hrel⟩ := hpath hvalid ha hpre
    rw [hdown, hrel]
  rw [collect_of_stat rfl hstat, mem_listed, mem_below_iff hfs]
  simp only [seenKind?_none]
  constructor
  · intro hcase
    obtain ⟨names, hne, -, ⟨n, hn⟩, -, hs, hkind, he⟩ := hcase
    have hvalid : ValidNames names := (hfs.validNames hn).of_append.2
    obtain ⟨hdown, hrel⟩ := hpath hvalid hne (List.prefix_refl names)
    rw [hdown] at hkind he
    exact ⟨names, n, hne, hvalid, he.trans hrel, hn, hkind, (hshown hvalid).1 hs⟩
  · intro hcase
    obtain ⟨names, n, hne, hvalid, he, hn, hkind, hs⟩ := hcase
    obtain ⟨hdown, hrel⟩ := hpath hvalid hne (List.prefix_refl names)
    rw [← hdown] at hkind
    refine ⟨names, hne, length_lt_fuel hfs hn, ⟨n, hn⟩, readable_of_kindAt? hvalid.plain hkind,
      (hshown hvalid).2 hs, hkind, ?_⟩
    rw [hdown, hrel, he]

theorem mem_collect_iff (hfs : fs.WellFormed) (hs : source.isAbsolute) {place : Place} {t : Nat}
    (hstat : fs.stat (source.join ⟨[]⟩) = .ok (place, .directory t)) {e : SourceEntry} :
    e ∈ (collect fs policy source ⟨[]⟩ .none).1 ↔
      ∃ names n, names ≠ [] ∧ ValidNames names ∧ e.path = .ofNames names ∧
        fs.at? (place ++ names) = some n ∧ kindAt? fs (source.descend names) = some e.kind ∧
        ∀ a, a ≠ [] → a <+: names → policy.excludesPath (.ofNames a) = false := by
  have hnil : ValidNames [] := by simp [ValidNames]
  exact mem_collect_ofNames_iff hfs hs hnil hstat

theorem seen_of_mem_collect {rel : Path} {e : SourceEntry}
    (he : e ∈ (collect fs policy source rel refused).1) :
    ∃ place t, seen fs refused (source.join rel) = .ok (place, .directory t) := by
  rw [collect, mem_listed, walkFrom] at he
  split at he
  · simp at he
  next place t hseen => exact ⟨place, t, hseen⟩
  · simp at he

theorem stat_of_mem_collect {rel : Path} {e : SourceEntry}
    (he : e ∈ (collect fs policy source rel refused).1) :
    ∃ place t, fs.stat (source.join rel) = .ok (place, .directory t) := by
  obtain ⟨place, t, hseen⟩ := seen_of_mem_collect he
  exact ⟨place, t, (of_seen hseen).2⟩

theorem collect_nil_or (rel : Path) :
    (collect fs policy source rel refused).1 = [] ∨
      ∃ place t, fs.stat (source.join rel) = .ok (place, .directory t) := by
  cases h : (collect fs policy source rel refused).1 with
  | nil => exact .inl rfl
  | cons e es => exact .inr (stat_of_mem_collect (h ▸ List.mem_cons_self))

theorem names_of_mem_collect (hfs : fs.WellFormed) (hs : source.isAbsolute) {e : SourceEntry}
    (he : e ∈ (collect fs policy source ⟨[]⟩ .none).1) :
    ∃ dirs name, ValidNames dirs ∧ ValidName name ∧ e.path = .ofNames (dirs ++ [name]) := by
  obtain ⟨place, t, hstat⟩ := stat_of_mem_collect he
  obtain ⟨names, n, hne, hvalid, hpath, -⟩ := (mem_collect_iff hfs hs hstat).1 he
  obtain ⟨dirs, name, rfl⟩ := (List.eq_nil_or_concat' names).resolve_left hne
  exact ⟨dirs, name, hvalid.of_append.1, hvalid name (by simp), hpath⟩

/-! ### Once each -/

theorem path_of_mem_below (hfs : fs.WellFormed) (hs : source.isAbsolute) {fuel : Nat}
    {above : List Text} (habove : ValidNames above) {place : Place} {e : SourceEntry}
    (h : e ∈ listed (below fs policy source refused fuel ((source.join ⟨[]⟩).descend above)
      place)) :
    ∃ names, names ≠ [] ∧ ValidNames names ∧ e.path = .ofNames (above ++ names) := by
  obtain ⟨names, hne, -, ⟨n, hn⟩, -, -, -, hpath⟩ := (mem_below_iff hfs).1 (mem_listed.1 h)
  have hvalid := (hfs.validNames hn).of_append.2
  refine ⟨names, hne, hvalid, ?_⟩
  rw [hpath, ← Path.descend_append, descend_top hs (by simp [hne]) (habove.append hvalid).plain,
    relative_descend hs (habove.append hvalid).plain]

def under (fs : FileSystem) (policy : ExclusionPolicy) (source : Path)
    (refused : Refusals) (fuel : Nat) (dir : Path) (place : Place) (e : Text × Node) :
    List SourceEntry :=
  if policy.excludesPath (relative source (dir.joinText e.1)) then []
  else
    ((seenKind? fs refused (dir.joinText e.1)).map fun kind =>
      ⟨relative source (dir.joinText e.1), kind⟩).toList ++
      if e.2.isDirectory then
        listed (below fs policy source refused fuel (dir.joinText e.1) (place ++ [e.1]))
      else []

theorem listed_below_of_refused {fuel : Nat} {dir : Path} {place : Place} {cause : IoError}
    (h : refusal? refused dir = some cause) :
    listed (below fs policy source refused (fuel + 1) dir place) = [] := by
  rw [below_of_refused h]
  rfl

theorem listed_below_succ {fuel : Nat} {dir : Path} {place : Place}
    (h : refusal? refused dir = none) :
    listed (below fs policy source refused (fuel + 1) dir place) =
      (fs.entries place).flatMap (under fs policy source refused fuel dir place) := by
  rw [below, h, listed]
  simp only [List.filterMap_flatMap]
  refine congrArg (fs.entries place).flatMap (funext fun e => ?_)
  rw [under]
  split
  · rfl
  rw [List.filterMap_append]
  refine congrArg₂ (· ++ ·) ?_ ?_
  · cases seenKind? fs refused (dir.joinText e.1) <;> rfl
  · split <;> rfl

section

variable {dir rel : Path} {name : Text} {node : Node} {fuel : Nat} {place : Place}
  {kind : EntryKind}

theorem under_of_excluded (hrel : relative source (dir.joinText name) = rel)
    (hhidden : policy.excludesPath rel = true) :
    under fs policy source refused fuel dir place (name, node) = [] := by
  rw [under, hrel, if_pos hhidden]

theorem under_of_kind (hrel : relative source (dir.joinText name) = rel)
    (hshown : policy.excludesPath rel = false) (hkind : kindAt? fs (dir.joinText name) = some kind)
    (hnode : node.isDirectory = false) :
    under fs policy source .none fuel dir place (name, node) = [⟨rel, kind⟩] := by
  rw [under, hrel, hshown, seenKind?_none, hkind, hnode]
  rfl

theorem under_of_directory {t : Nat} {names : List SourceEntry}
    (hrel : relative source (dir.joinText name) = rel)
    (hshown : policy.excludesPath rel = false) (hkind : kindAt? fs (dir.joinText name) = some kind)
    (hbelow : listed (below fs policy source .none fuel (dir.joinText name) (place ++ [name])) =
      names) :
    under fs policy source .none fuel dir place (name, .directory t) = ⟨rel, kind⟩ :: names := by
  rw [under, hrel, hshown, seenKind?_none, hkind, hbelow]
  rfl

end

variable {fuel : Nat} {above : List Text} {place : Place} {e : Text × Node}

theorem path_of_mem_under (hfs : fs.WellFormed) (hs : source.isAbsolute)
    (habove : ValidNames (above ++ [e.1])) {x : SourceEntry}
    (h : x ∈ under fs policy source refused fuel ((source.join ⟨[]⟩).descend above) place e) :
    ∃ names, ValidNames names ∧ x.path = .ofNames (above ++ e.1 :: names) := by
  rw [under, ← Path.descend_concat] at h
  split at h
  · simp at h
  cases List.mem_append.1 h with
  | inl h =>
    rw [Option.mem_toList, Option.map_eq_some_iff] at h
    obtain ⟨kind, -, rfl⟩ := h
    refine ⟨[], by simp [ValidNames], ?_⟩
    rw [descend_top hs (by simp) habove.plain, relative_descend hs habove.plain]
  | inr h =>
    split at h
    case isFalse => simp at h
    obtain ⟨names, -, hvalid, hpath⟩ := path_of_mem_below hfs hs habove h
    exact ⟨names, hvalid, by simpa using hpath⟩

theorem nodup_under (hfs : fs.WellFormed) (hs : source.isAbsolute)
    (habove : ValidNames (above ++ [e.1])) (hbelow : ((listed (below fs policy source refused fuel
      ((source.join ⟨[]⟩).descend (above ++ [e.1])) (place ++ [e.1]))).map (·.path)).Nodup) :
    ((under fs policy source refused fuel ((source.join ⟨[]⟩).descend above) place e).map
      (·.path)).Nodup := by
  rw [under, ← Path.descend_concat]
  split
  · simp
  rw [List.map_append, List.nodup_append]
  refine ⟨?_, ?_, ?_⟩
  · cases seenKind? fs refused ((source.join ⟨[]⟩).descend (above ++ [e.1])) <;> simp
  · split
    · exact hbelow
    · simp
  · intro p hp q hq
    split at hq
    case isFalse => simp at hq
    obtain ⟨x, hx, rfl⟩ := List.mem_map.1 hq
    obtain ⟨names, hne, hvalid, hpath⟩ := path_of_mem_below hfs hs habove hx
    have hp : p = .ofNames (above ++ [e.1]) := by
      rw [descend_top hs (by simp) habove.plain, relative_descend hs habove.plain] at hp
      cases hk : seenKind? fs refused (source.descend (above ++ [e.1])) with
      | none => simp [hk] at hp
      | some kind => simpa [hk] using hp
    rw [hp, hpath]
    intro heq
    have := Path.ofNames_inj habove (habove.append hvalid) (by simp) (by simp) heq
    simp [hne] at this

theorem nodup_below (hfs : fs.WellFormed) (hs : source.isAbsolute) (habove : ValidNames above) :
    ((listed (below fs policy source refused fuel ((source.join ⟨[]⟩).descend above) place)).map
      (·.path)).Nodup := by
  induction fuel generalizing above place with
  | zero => exact .nil
  | succ fuel ih =>
    cases hrefused : refusal? refused ((source.join ⟨[]⟩).descend above) with
    | some cause =>
      rw [listed_below_of_refused hrefused]
      exact .nil
    | none =>
      have hvalid {e : Text × Node} (he : e ∈ fs.entries place) : ValidNames (above ++ [e.1]) := by
        refine habove.append ?_
        simpa [ValidNames] using hfs.validName (hfs.at?_of_mem (by simp) (mem_entries.1 he))
      rw [listed_below_succ hrefused, List.map_flatMap, List.nodup_flatMap]
      refine ⟨fun e he => nodup_under hfs hs (hvalid he) (ih (hvalid he)), ?_⟩
      refine (hfs.nodup_entries place).pairwise_of_forall_ne fun e he f hf hne p hp hp' => ?_
      obtain ⟨x, hx, rfl⟩ := List.mem_map.1 hp
      obtain ⟨y, hy, heq⟩ := List.mem_map.1 hp'
      obtain ⟨names, hnames, hpath⟩ := path_of_mem_under hfs hs (hvalid he) hx
      obtain ⟨names', hnames', hpath'⟩ := path_of_mem_under hfs hs (hvalid hf) hy
      have hlong {e : Text × Node} (he : e ∈ fs.entries place) {names : List Text}
          (hnames : ValidNames names) : ValidNames (above ++ e.1 :: names) := by
        simpa using (hvalid he).append hnames
      have hsame := Path.ofNames_inj (hlong he hnames) (hlong hf hnames') (by simp) (by simp)
        (hpath.symm.trans (heq.symm.trans hpath'))
      rw [List.append_cancel_left_eq, List.cons.injEq] at hsame
      -- Two entries of one name are one entry.
      have hat := hfs.at?_of_mem (by simp) (mem_entries.1 he)
      have hat' := hfs.at?_of_mem (by simp) (mem_entries.1 hf)
      rw [hsame.1, hat', Option.some.injEq] at hat
      exact hne (Prod.ext hsame.1 hat.symm)

end SourceEntry

namespace Builder

theorem mem_files {entries : List SourceEntry} {rel : Path} :
    rel ∈ files entries ↔ ⟨rel, .file⟩ ∈ entries := by
  rw [files, List.mem_map]
  constructor
  · intro hcase
    obtain ⟨e, he, rfl⟩ := hcase
    obtain ⟨hmem, hkind⟩ := List.mem_filter.1 he
    rwa [← of_decide_eq_true hkind]
  · intro h
    exact ⟨_, List.mem_filter.2 ⟨h, by simp⟩, rfl⟩

theorem collectIn_of_stat {b : Builder} {rel : Path} {place : Place} {t : Nat}
    (hstat : fs.stat (b.source.join rel) = .ok (place, .directory t))
    (hshort : SourceEntry.refusal? .none (b.source.join rel) = none) :
    (b.collectIn fs rel).1 = (fs.entries place).flatMap
    (SourceEntry.under fs b.policy b.source .none
      fs.nodes.length (b.source.join rel) place) := by
  rw [collectIn, collectRefused, SourceEntry.collect_of_stat rfl hstat]
  exact SourceEntry.listed_below_succ hshort

theorem collectIn_of_entries {b : Builder} {rel : Path} {t : Nat} (place : Place)
    (entries : List (Text × Node)) (found : List (List SourceEntry))
    (hstat : fs.stat (b.source.join rel) = .ok (place, .directory t))
    (hshort : SourceEntry.refusal? .none (b.source.join rel) = none)
    (hentries : fs.entries place = entries)
    (hunder : List.Forall₂ (fun e x => SourceEntry.under fs b.policy b.source .none
      fs.nodes.length (b.source.join rel) place e = x) entries found) :
    (b.collectIn fs rel).1 = found.flatten := by
  rw [collectIn_of_stat hstat hshort, hentries, List.flatMap_def]
  exact congrArg List.flatten (List.forall₂_eq_eq_eq ▸ List.forall₂_map_left_iff.2 hunder)

theorem collectIn_single {b : Builder} {rel : Path} {t : Nat} {kind : EntryKind} (place : Place)
    (name : Text) (node : Node) (hstat : fs.stat (b.source.join rel) = .ok (place, .directory t))
    (hshort : SourceEntry.refusal? .none (b.source.join rel) = none)
    (hentries : fs.entries place = [(name, node)]) (hnode : node.isDirectory = false)
    (hkind : SourceEntry.kindAt? fs ((b.source.join rel).joinText name) = some kind)
    (hshown : b.policy.excludesPath
      (SourceEntry.relative b.source ((b.source.join rel).joinText name)) = false) :
    b.collectIn fs rel =
      ([⟨SourceEntry.relative b.source ((b.source.join rel).joinText name), kind⟩], []) := by
  rw [collectIn, collectRefused, SourceEntry.collect_of_stat rfl hstat, SourceEntry.below, hshort,
    hentries]
  simp [hshown, hkind, hnode, SourceEntry.listed, SourceEntry.logged, Except.toOption]

theorem nodup_files_collectIn {b : Builder} (hfs : fs.WellFormed) (hs : b.source.isAbsolute)
    {above : List Text} (habove : ValidNames above) :
    (files (b.collectIn fs (.ofNames above)).1).Nodup := by
  rw [files]
  refine List.Nodup.sublist (List.filter_sublist.map _) ?_
  rw [collectIn, collectRefused]
  rcases SourceEntry.collect_nil_or (.ofNames above) with hnil | ⟨place, t, hstat⟩
  · rw [hnil]
    exact .nil
  rw [SourceEntry.collect_of_stat rfl hstat]
  by_cases hne : above = []
  · subst hne
    exact SourceEntry.nodup_below hfs hs habove
  · -- The names of the start are put below the source, where the walk would meet them too.
    rw [Path.join_ofNames _ hne habove.plain, ← SourceEntry.descend_top hs hne habove.plain]
    exact SourceEntry.nodup_below hfs hs habove

theorem nodup_files {b : Builder} (hfs : fs.WellFormed) (hs : b.source.isAbsolute) :
    (files (b.collect fs).1).Nodup := by
  have hnil : ValidNames [] := by simp [ValidNames]
  have htop : (⟨[]⟩ : Path) = .ofNames [] := rfl
  rw [collect, htop]
  exact nodup_files_collectIn hfs hs hnil

end Builder
end StaticSite
