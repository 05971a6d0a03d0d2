import StaticSite.Proofs.Hiding
import StaticSite.Proofs.Keeping
import StaticSite.Proofs.Subscriptions

/-! What the walk comes by where there are no links, told by places: the directories that a full
subscription holds, the files of the tree, and those of them below a place. -/
namespace StaticSite

open FileSystem

namespace Path

variable {a b names : List Text} {name : Text}

theorem descend_ofPlace (hab : ValidNames (a ++ b)) : (ofPlace a).descend b = ofPlace (a ++ b) := by
  rw [ofPlace_eq_descend hab.of_append.1.plain, ofPlace_eq_descend hab.plain, descend_append]

theorem startsWith_congr {p q : Path} (h : p.components = q.components) (base : Path) :
    p.startsWith base = q.startsWith base := by
  rw [startsWith, startsWith, h]

theorem components_ofPlace_inj (ha : ValidNames a) (hb : ValidNames b)
    (h : (ofPlace a).components = (ofPlace b).components) : a = b := by
  have hba : b <+: a := (startsWith_ofPlace ha hb).1 (by simp [startsWith, h])
  have hab : a <+: b := (startsWith_ofPlace hb ha).1 (by simp [startsWith, h])
  exact hab.eq_of_length (Nat.le_antisymm hab.length_le hba.length_le)

theorem parent?_ofPlace_concat (h : ValidNames (names ++ [name])) :
    ∃ p, (ofPlace (names ++ [name])).parent? = some p ∧
      p.components = (ofPlace names).components := by
  have hname : Plain name := (h name (by simp)).plain
  refine ⟨(ofPlace names).trimmed, ?_, components_trimmed (ofPlace names)⟩
  rw [ofPlace_eq_descend h.plain, parent?_descend_concat (isAbsolute_ofPlace []) names hname,
    ← ofPlace_eq_descend h.of_append.1.plain]

end Path

theorem FileSystem.WellFormed.exists_at?_of_append {fs : FileSystem} (hwf : fs.WellFormed)
    {p : Place} {names : List Text} {n : Node} (h : fs.at? (p ++ names) = some n) :
    ∃ m, fs.at? p = some m := by
  by_cases hne : names = []
  · exact ⟨n, by rwa [hne, List.append_nil] at h⟩
  · obtain ⟨t, ht⟩ := hwf.directory_above hne h
    exact ⟨_, ht⟩

theorem FileSystem.WellFormed.not_prefix_of_none {fs : FileSystem} (hwf : fs.WellFormed)
    {p q : Place} {n : Node} (hnone : fs.at? q = none) (hn : fs.at? p = some n) : ¬q <+: p := by
  intro hpre
  obtain ⟨more, rfl⟩ := hpre
  obtain ⟨m, hm⟩ := hwf.exists_at?_of_append hn
  rw [hnone] at hm
  cases hm

theorem FileSystem.WellFormed.eq_of_file_above {fs : FileSystem} (hwf : fs.WellFormed) {p q : Place}
    {n : Node} {content : Bytes} {t : Nat} (hfile : fs.at? p = some (.file content t))
    (hn : fs.at? q = some n) (hpre : p <+: q) :
    q = p := by
  obtain ⟨more, rfl⟩ := hpre
  by_cases hmore : more = []
  · rw [hmore, List.append_nil]
  · obtain ⟨u, hu⟩ := hwf.directory_above hmore hn
    rw [hfile] at hu
    cases hu

namespace Builder

variable {b : Builder} {fs fs' : FileSystem} {root p q r : Place} {above names : List Text}
  {name : Text} {rel : Path}

structure Rooted (b : Builder) (root : Place) : Prop where
  source : b.source = .ofPlace root
  valid : ValidNames root

/-- That there are no links and the source is a directory. -/
structure Standing (b : Builder) (root : Place) (fs : FileSystem) : Prop where
  wellFormed : fs.WellFormed
  linkFree : fs.LinkFree
  leads : fs.Leads b.source root
  named : textRefusal? b.source = none

theorem standing_of_isDirectory (hwf : fs.WellFormed) (hlf : fs.LinkFree) (hs : b.source.isAbsolute)
    (hdir : fs.isDirectory b.source) : Standing b b.source.place fs := by
  obtain ⟨d, hleads⟩ := leads_of_isDirectory hlf hs hdir
  obtain ⟨q, t, hstat⟩ := isDirectory_iff.1 hdir
  rw [hleads.place_eq]
  exact ⟨hwf, hlf, hleads, (find_of_ok (stat_eq_ok.1 hstat)).1⟩

theorem Rooted.isAbsolute (hr : Rooted b root) : b.source.isAbsolute := by
  rw [hr.source]
  exact Path.isAbsolute_ofPlace root

theorem Rooted.descend (hr : Rooted b root) (hnames : ValidNames names) :
    b.source.descend names = .ofPlace (root ++ names) := by
  rw [hr.source, Path.descend_ofPlace (hr.valid.append hnames)]

theorem Rooted.join (hr : Rooted b root) (hne : names ≠ []) (hnames : ValidNames names) :
    b.source.join (.ofNames names) = .ofPlace (root ++ names) := by
  rw [Path.join_ofNames _ hne hnames.plain, hr.descend hnames]

theorem Standing.directory (hst : Standing b root fs) : ∃ t, fs.at? root = some (.directory t) :=
  hst.leads.at? hst.wellFormed

theorem Rooted.of_load {c : Config} {cli : CommandLine} {start : FileSystem}
    (hstart : start.WellFormed) (hload : Config.load start cli = .ok c) :
    Rooted (ofConfig c) c.source.place :=
  have hsource := source_eq_ofPlace hstart (Config.loaded_of_load hstart hload)
  ⟨hsource.1, hsource.2⟩

theorem Standing.not_above_of_none (hst : Standing b root fs) (hnone : fs.at? q = none) :
    ¬q <+: root := by
  obtain ⟨t, ht⟩ := hst.directory
  exact hst.wellFormed.not_prefix_of_none hnone ht

theorem Standing.not_above_of_file (hst : Standing b root fs) {content : Bytes} {t : Nat}
    (hat : fs.at? q = some (.file content t)) : ¬q <+: root := by
  intro hpre
  obtain ⟨u, hu⟩ := hst.directory
  rw [hst.wellFormed.eq_of_file_above hat hu hpre, hat] at hu
  cases hu

theorem Standing.ne_nil_of_file (hst : Standing b root fs)
    (hfile : ∃ content t, fs.at? (root ++ names) = some (.file content t)) : names ≠ [] := by
  intro hnil
  obtain ⟨content, t, hfile⟩ := hfile
  obtain ⟨u, hu⟩ := hst.directory
  rw [hnil, List.append_nil, hu] at hfile
  cases hfile

theorem Standing.isDirectory_iff (hst : Standing b root fs) (hne : names ≠ [])
    (hnames : ValidNames names) :
    fs.isDirectory (b.source.descend names) ↔
      Admitted b.source names ∧ ∃ t, fs.at? (root ++ names) = some (.directory t) := by
  rw [FileSystem.isDirectory_iff]
  constructor
  · intro h
    obtain ⟨q, t, hstat⟩ := h
    obtain ⟨rfl, hat, hadmitted⟩ :=
      (hst.leads.stat_descend_iff hst.wellFormed hst.linkFree hne hnames).1 hstat
    exact ⟨hadmitted, t, hat⟩
  · intro h
    obtain ⟨hadmitted, t, hat⟩ := h
    exact ⟨_, t, (hst.leads.stat_descend_iff hst.wellFormed hst.linkFree hne hnames).2
      ⟨rfl, hat, hadmitted⟩⟩

theorem Standing.isFile_iff (hst : Standing b root fs) (hne : names ≠ [])
    (hnames : ValidNames names) :
    fs.isFile (b.source.descend names) ↔
      Admitted b.source names ∧ ∃ content t, fs.at? (root ++ names) = some (.file content t) := by
  rw [FileSystem.isFile_iff]
  constructor
  · intro h
    obtain ⟨q, content, t, hstat⟩ := h
    obtain ⟨rfl, hat, hadmitted⟩ :=
      (hst.leads.stat_descend_iff hst.wellFormed hst.linkFree hne hnames).1 hstat
    exact ⟨hadmitted, content, t, hat⟩
  · intro h
    obtain ⟨hadmitted, content, t, hat⟩ := h
    exact ⟨_, content, t, (hst.leads.stat_descend_iff hst.wellFormed hst.linkFree hne hnames).2
      ⟨rfl, hat, hadmitted⟩⟩

theorem Standing.kindAt?_directory_iff (hst : Standing b root fs) (hne : names ≠ [])
    (hnames : ValidNames names) :
    SourceEntry.kindAt? fs (b.source.descend names) = some .directory ↔
      Admitted b.source names ∧ ∃ t, fs.at? (root ++ names) = some (.directory t) :=
  SourceEntry.kindAt?_eq_directory.trans (hst.isDirectory_iff hne hnames)

theorem Standing.kindAt?_file_iff (hst : Standing b root fs) (hne : names ≠ [])
    (hnames : ValidNames names) :
    SourceEntry.kindAt? fs (b.source.descend names) = some .file ↔
      Admitted b.source names ∧ ∃ content t, fs.at? (root ++ names) = some (.file content t) :=
  (SourceEntry.kindAt?_eq_file.trans FileSystem.isFile_iff.symm).trans (hst.isFile_iff hne hnames)

/-- That the walk comes by a place: no rule leaves it out, its path can be looked up, and something
is there. -/
structure Met (b : Builder) (fs : FileSystem) (root : Place) (names : List Text) :
    Prop extends Open b names where
  admitted : Admitted b.source names
  there : ∃ n, fs.at? (root ++ names) = some n

/-- The directories that a full subscription holds: the source, and those that the walk lists. -/
def Seen (b : Builder) (fs : FileSystem) (root p : Place) : Prop :=
  ∃ names, p = root ++ names ∧ Met b fs root names ∧ ∃ t, fs.at? p = some (.directory t)

theorem Met.of_append (hr : Rooted b root) (hwf : fs.WellFormed)
    (h : Met b fs root (above ++ names)) :
    Met b fs root above := by
  refine ⟨h.toOpen.of_append, h.admitted.of_append hr.isAbsolute h.valid, ?_⟩
  obtain ⟨n, hn⟩ := h.there
  rw [← List.append_assoc] at hn
  exact hwf.exists_at?_of_append hn

theorem Met.directory_or_file (h : Met b fs root names) (hst : Standing b root fs) :
    (∃ t, fs.at? (root ++ names) = some (.directory t)) ∨
    ∃ content t, fs.at? (root ++ names) = some (.file content t) := by
  obtain ⟨n, hn⟩ := h.there
  cases n with
  | directory t => exact .inl ⟨t, hn⟩
  | file content t => exact .inr ⟨content, t, hn⟩
  | link target => exact absurd (hst.linkFree.isLink_eq_false hn) (by simp [Node.isLink])

theorem Met.exists_of_directory (h : Met b fs root names) (hr : Rooted b root)
    (hst : Standing b root fs) (hne : names ≠ [])
    (hdir : ∃ t, fs.at? (root ++ names) = some (.directory t)) :
    fs.exists_ (.ofPlace (root ++ names)) := by
  rw [← hr.descend h.valid]
  obtain ⟨q, u, hstat⟩ := FileSystem.isDirectory_iff.1
    ((hst.isDirectory_iff hne h.valid).2 ⟨h.admitted, hdir⟩)
  exact exists_iff.2 ⟨q, _, hstat⟩

theorem Met.seen_of_append (hr : Rooted b root) (hwf : fs.WellFormed)
    (h : Met b fs root (above ++ names)) (hne : names ≠ []) : Seen b fs root (root ++ above) := by
  refine ⟨above, rfl, h.of_append hr hwf, ?_⟩
  obtain ⟨n, hn⟩ := h.there
  rw [← List.append_assoc] at hn
  exact hwf.directory_above hne hn

theorem Seen.valid (hr : Rooted b root) (h : Seen b fs root p) : ValidNames p := by
  obtain ⟨names, rfl, hmet, -⟩ := h
  exact hr.valid.append hmet.valid

theorem seen_root (hst : Standing b root fs) : Seen b fs root root := by
  obtain ⟨t, ht⟩ := hst.directory
  have hat : fs.at? (root ++ []) = some (.directory t) := by rwa [List.append_nil]
  exact ⟨[], (List.append_nil root).symm, ⟨.nil b, ⟨hst.named, by simp⟩, _, hat⟩, t, ht⟩

theorem Seen.congr (h : Seen b fs root p) (hsame : fs'.at? p = fs.at? p) : Seen b fs' root p := by
  obtain ⟨names, rfl, hmet, t, ht⟩ := h
  rw [← hsame] at ht
  exact ⟨names, rfl, ⟨hmet.toOpen, hmet.admitted, _, ht⟩, t, ht⟩

theorem stat_start (hr : Rooted b root) (hst : Standing b root fs)
    (habove : Seen b fs root (root ++ above)) (hopen : Open b above) (hne : names ≠ [])
    (hmet : Met b fs root (above ++ names)) :
    ∃ t, fs.stat (b.source.join (.ofNames above)) = .ok (root ++ above, .directory t) := by
  by_cases hnil : above = []
  · subst hnil
    have htop := textRefusal?_top hr.isAbsolute hne hmet.valid hmet.admitted
    rw [List.append_nil]
    exact stat_top hst.linkFree hst.leads htop
  · obtain ⟨-, -, -, t, ht⟩ := habove
    have hadmitted := (hmet.of_append hr hst.wellFormed).admitted
    rw [Path.join_ofNames _ hnil hopen.valid.plain]
    exact ⟨t, (hst.leads.stat_descend_iff hst.wellFormed hst.linkFree hnil hopen.valid).2
      ⟨rfl, ht, hadmitted⟩⟩

theorem mem_collectIn_iff (hr : Rooted b root) (hst : Standing b root fs)
    (habove : Seen b fs root (root ++ above)) (hopen : Open b above) {e : SourceEntry} :
    e ∈ (b.collectIn fs (.ofNames above)).1 ↔
      ∃ names, names ≠ [] ∧ Met b fs root (above ++ names) ∧ e.path = .ofNames (above ++ names) ∧
        SourceEntry.kindAt? fs (b.source.descend (above ++ names)) = some e.kind := by
  constructor
  · intro he
    obtain ⟨names, hne, hnames, hpath, hkind⟩ :=
      open_of_mem_collectIn hst.wellFormed hr.isAbsolute hopen he
    have hne' : above ++ names ≠ [] := by simp [hne]
    refine ⟨names, hne, ?_, hpath, hkind⟩
    obtain ⟨path, kind⟩ := e
    cases kind with
    | directory =>
      obtain ⟨hadmitted, t, hat⟩ := (hst.kindAt?_directory_iff hne' hnames.valid).1 hkind
      exact ⟨hnames, hadmitted, _, hat⟩
    | file =>
      obtain ⟨hadmitted, content, t, hat⟩ := (hst.kindAt?_file_iff hne' hnames.valid).1 hkind
      exact ⟨hnames, hadmitted, _, hat⟩
  · intro h
    obtain ⟨names, hne, hmet, hpath, hkind⟩ := h
    obtain ⟨t, hstat⟩ := stat_start hr hst habove hopen hne hmet
    obtain ⟨n, hn⟩ := hmet.there
    rw [← List.append_assoc] at hn
    refine (SourceEntry.mem_collect_ofNames_iff hst.wellFormed hr.isAbsolute hopen.valid hstat).2
      ⟨names, n, hne, hmet.valid.of_append.2, hpath, hn, hkind, fun a ha hpre => ?_⟩
    exact hmet.shown (above ++ a) (by simp [ha]) ((List.prefix_append_right_inj above).2 hpre)

theorem exists_directory_collectIn_iff (hr : Rooted b root) (hst : Standing b root fs)
    (habove : Seen b fs root (root ++ above)) (hopen : Open b above) {d : Path} :
    (∃ e ∈ (b.collectIn fs (.ofNames above)).1, e.kind = .directory ∧
        d.components = (b.source.join e.path).components) ↔
      ∃ p, (Seen b fs root p ∧ root ++ above <+: p ∧ p ≠ root ++ above) ∧
        d.components = (Path.ofPlace p).components := by
  constructor
  · intro h
    obtain ⟨⟨path, kind⟩, he, rfl, hd⟩ := h
    obtain ⟨names, hne, hmet, rfl, hkind⟩ := (mem_collectIn_iff hr hst habove hopen).1 he
    have hne' : above ++ names ≠ [] := by simp [hne]
    have hdir := ((hst.kindAt?_directory_iff hne' hmet.valid).1 hkind).2
    rw [hr.join hne' hmet.valid] at hd
    refine ⟨root ++ (above ++ names), ⟨⟨_, rfl, hmet, hdir⟩, ?_, by simpa using hne⟩, hd⟩
    rw [← List.append_assoc]
    exact List.prefix_append _ _
  · intro h
    obtain ⟨p, ⟨⟨names, rfl, hmet, hdir⟩, hpre, hne⟩, hd⟩ := h
    obtain ⟨more, rfl⟩ := (List.prefix_append_right_inj root).1 hpre
    have hmore : more ≠ [] := by
      intro hnil
      exact hne (by rw [hnil, List.append_nil])
    have hne' : above ++ more ≠ [] := by simp [hmore]
    have hkind := (hst.kindAt?_directory_iff hne' hmet.valid).2 ⟨hmet.admitted, hdir⟩
    refine ⟨⟨.ofNames (above ++ more), .directory⟩,
      (mem_collectIn_iff hr hst habove hopen).2 ⟨more, hmore, hmet, rfl, hkind⟩, rfl, ?_⟩
    rw [hr.join hne' hmet.valid, hd]

theorem exists_of_mem_collectIn (hr : Rooted b root) (hst : Standing b root fs)
    (habove : Seen b fs root (root ++ above)) (hopen : Open b above) {e : SourceEntry}
    (he : e ∈ (b.collectIn fs (.ofNames above)).1) :
    fs.exists_ (b.source.join e.path) := by
  obtain ⟨names, hne, hmet, hpath, hkind⟩ := (mem_collectIn_iff hr hst habove hopen).1 he
  rw [SourceEntry.kindAt?, Option.bind_eq_some_iff] at hkind
  obtain ⟨n, hn, -⟩ := hkind
  obtain ⟨q, hstat⟩ := node?_eq_some.1 hn
  rw [hpath, Path.join_ofNames _ (by simp [hne]) hmet.valid.plain]
  exact exists_iff.2 ⟨q, n, hstat⟩

theorem exists_directory_collect_iff (hr : Rooted b root) (hst : Standing b root fs) {d : Path} :
    (∃ e ∈ (b.collect fs).1, e.kind = .directory ∧
      d.components = (b.source.join e.path).components) ↔
      ∃ p, (Seen b fs root p ∧ p ≠ root) ∧ d.components = (Path.ofPlace p).components := by
  have hroot : Seen b fs root (root ++ []) := by
    rw [List.append_nil]
    exact seen_root hst
  have hall := exists_directory_collectIn_iff hr hst hroot (.nil b) (d := d)
  rw [List.append_nil] at hall
  refine Iff.trans hall (exists_congr fun p => ⟨fun hp => ⟨⟨hp.1.1, hp.1.2.2⟩, hp.2⟩,
    fun hp => ⟨⟨hp.1.1, ?_, hp.1.2⟩, hp.2⟩⟩)
  obtain ⟨names, rfl, -⟩ := hp.1.1
  exact List.prefix_append root names

theorem mem_files_iff_met (hr : Rooted b root) (hst : Standing b root fs) :
    rel ∈ files (b.collect fs).1 ↔
      ∃ names, rel = .ofNames names ∧ Met b fs root names ∧
        ∃ content t, fs.at? (root ++ names) = some (.file content t) := by
  have hroot : Seen b fs root (root ++ []) := by
    rw [List.append_nil]
    exact seen_root hst
  have hall {e : SourceEntry} := mem_collectIn_iff (e := e) hr hst hroot (.nil b)
  rw [mem_files]
  refine (hall).trans ?_
  simp only [List.nil_append]
  constructor
  · intro h
    obtain ⟨names, hne, hmet, hpath, hkind⟩ := h
    exact ⟨names, hpath, hmet, ((hst.kindAt?_file_iff hne hmet.valid).1 hkind).2⟩
  · intro h
    obtain ⟨names, hpath, hmet, hfile⟩ := h
    have hne := hst.ne_nil_of_file hfile
    exact ⟨names, hne, hmet, hpath, (hst.kindAt?_file_iff hne hmet.valid).2 ⟨hmet.admitted, hfile⟩⟩

/-- The files of the tree that are at or below a place, by their names. -/
def FileUnder (b : Builder) (fs : FileSystem) (q : Place) (rel : Path) : Prop :=
  rel ∈ files (b.collect fs).1 ∧ (b.source.join rel).startsWith (.ofPlace q)

theorem fileUnder_iff (hr : Rooted b root) (hst : Standing b root fs) (hq : ValidNames q) :
    FileUnder b fs q rel ↔
      ∃ names, rel = .ofNames names ∧ q <+: root ++ names ∧ Met b fs root names ∧
        ∃ content t, fs.at? (root ++ names) = some (.file content t) := by
  have hunder {names : List Text} (hmet : Met b fs root names)
      (hfile : ∃ content t, fs.at? (root ++ names) = some (.file content t)) :
      (b.source.join (.ofNames names)).startsWith (.ofPlace q) ↔ q <+: root ++ names := by
    have hne := hst.ne_nil_of_file hfile
    rw [hr.join hne hmet.valid, Path.startsWith_ofPlace (hr.valid.append hmet.valid) hq]
  rw [FileUnder, mem_files_iff_met hr hst]
  constructor
  · intro h
    obtain ⟨⟨names, rfl, hmet, hfile⟩, hstarts⟩ := h
    exact ⟨names, rfl, (hunder hmet hfile).1 hstarts, hmet, hfile⟩
  · intro h
    obtain ⟨names, rfl, hpre, hmet, hfile⟩ := h
    exact ⟨⟨names, rfl, hmet, hfile⟩, (hunder hmet hfile).2 hpre⟩

/-- Below a directory the walk that starts there lists the files that the whole walk lists. -/
theorem mem_files_collectIn_iff (hr : Rooted b root) (hst : Standing b root fs)
    (habove : Seen b fs root (root ++ above)) (hopen : Open b above) :
    rel ∈ files (b.collectIn fs (.ofNames above)).1 ↔ FileUnder b fs (root ++ above) rel := by
  rw [mem_files, mem_collectIn_iff hr hst habove hopen,
    fileUnder_iff hr hst (hr.valid.append hopen.valid)]
  constructor
  · intro h
    obtain ⟨names, hne, hmet, hpath, hkind⟩ := h
    refine ⟨above ++ names, hpath, ?_, hmet,
      ((hst.kindAt?_file_iff (by simp [hne]) hmet.valid).1 hkind).2⟩
    rw [← List.append_assoc]
    exact List.prefix_append _ _
  · intro h
    obtain ⟨names, hpath, hpre, hmet, hfile⟩ := h
    obtain ⟨more, rfl⟩ := (List.prefix_append_right_inj root).1 hpre
    have hmore : more ≠ [] := by
      rintro rfl
      obtain ⟨-, -, -, t, ht⟩ := habove
      obtain ⟨content, u, hu⟩ := hfile
      rw [List.append_nil, ht] at hu
      cases hu
    exact ⟨more, hmore, hmet, hpath,
      (hst.kindAt?_file_iff (by simp [hmore]) hmet.valid).2 ⟨hmet.admitted, hfile⟩⟩

theorem nothing_below (hr : Rooted b root) (hst : Standing b root fs) (habove : ValidNames above)
    (hnot : ¬Met b fs root above) :
    (∀ p, Seen b fs root p → ¬root ++ above <+: p) ∧
    ∀ rel, ¬FileUnder b fs (root ++ above) rel := by
  have hbelow {names : List Text} (hmet : Met b fs root names) :
      ¬root ++ above <+: root ++ names := by
    intro hpre
    obtain ⟨more, rfl⟩ := (List.prefix_append_right_inj root).1 hpre
    exact hnot (hmet.of_append hr hst.wellFormed)
  constructor
  · intro p hp
    obtain ⟨names, rfl, hmet, -⟩ := hp
    exact hbelow hmet
  · intro rel hrel
    obtain ⟨names, -, hpre, hmet, -⟩ := (fileUnder_iff hr hst (hr.valid.append habove)).1 hrel
    exact hbelow hmet hpre

end Builder

end StaticSite
