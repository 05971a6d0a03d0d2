import StaticSite.Proofs.Listing
import StaticSite.Proofs.Making

/-! The listed documents by their places. Where there are no links, a document is listed exactly if
there is a file at its place below the source, and nothing on the way to it is left out. -/
namespace StaticSite

open FileSystem

variable {fs : FileSystem}

theorem SourceEntry.kindAt?_eq_file {p : Path} :
    kindAt? fs p = some .file ↔ ∃ q content t, fs.stat p = .ok (q, .file content t) := by
  rw [kindAt?, Option.bind_eq_some_iff]
  constructor
  · intro hcase
    obtain ⟨n, hn, hkind⟩ := hcase
    obtain ⟨q, hq⟩ := node?_eq_some.1 hn
    cases n with
    | file content t => exact ⟨q, content, t, hq⟩
    | directory | link => simp at hkind
  · intro hex
    obtain ⟨q, content, t, h⟩ := hex
    exact ⟨_, node?_eq_some.2 ⟨q, h⟩, rfl⟩

theorem SourceEntry.kindAt?_eq_directory {p : Path} :
    kindAt? fs p = some .directory ↔ fs.isDirectory p := by
  rw [kindAt?, Option.bind_eq_some_iff, isDirectory_iff]
  constructor
  · intro hcase
    obtain ⟨n, hn, hkind⟩ := hcase
    obtain ⟨q, hq⟩ := node?_eq_some.1 hn
    cases n with
    | directory t => exact ⟨q, t, hq⟩
    | file | link => simp at hkind
  · intro hex
    obtain ⟨q, t, h⟩ := hex
    exact ⟨_, node?_eq_some.2 ⟨q, h⟩, rfl⟩

theorem SourceEntry.kindAt?_of_directory {p : Path} {q : Place} {t : Nat}
    (h : fs.stat p = .ok (q, .directory t)) :
    kindAt? fs p = some .directory :=
  kindAt?_eq_directory.2 (isDirectory_iff.2 ⟨q, t, h⟩)

namespace Builder

variable {b : Builder} {s : Place} {rel : Path} {names : List Text}

theorem steps_top (hs : b.source.isAbsolute) : (b.source.join ⟨[]⟩).steps = b.source.steps := by
  rw [Path.steps_join hs rfl]
  simp [Path.steps, Text.splitBy]

theorem stat_top (hlf : fs.LinkFree) (hs : fs.Leads b.source s)
    (hnone : textRefusal? (b.source.join ⟨[]⟩) = none) :
    ∃ t, fs.stat (b.source.join ⟨[]⟩) = .ok (s, .directory t) := by
  have htop : (b.source.join ⟨[]⟩).isAbsolute := Path.isAbsolute_join_left hs.absolute
  obtain ⟨t, ht⟩ := hs.route
  have hroute : fs.route [] (lookupNames (b.source.join ⟨[]⟩)) = .ok (.found s (.directory t)) := by
    rw [route_lookupNames, steps_top hs.absolute]
    exact ht
  refine ⟨t, stat_eq_ok.2 ?_⟩
  rw [find_eq_route hlf true htop, hnone]
  exact hroute

theorem textRefusal?_top_of_descend (hs : b.source.isAbsolute) (hne : names ≠ [])
    (hvalid : ValidNames names) (hnone : textRefusal? (b.source.descend names) = none) :
    textRefusal? (b.source.join ⟨[]⟩) = none := by
  have hslash : (b.source.join ⟨[]⟩).text = b.source.stemText ++ [] :=
    Path.text_join_of_relative hs rfl
  have hjoin : (b.source.descend names).text = b.source.stemText ++ (Path.ofNames names).text := by
    rw [← Path.join_ofNames _ hne hvalid.plain,
      Path.text_join_of_relative hs (Path.ofNames_noAbsolute hvalid.plain)]
  refine textRefusal?_mono ?_ ?_ hnone
  · rw [hslash, hjoin, List.append_nil]
    exact List.prefix_append _ _
  · obtain ⟨rest, hrest⟩ := Path.isAbsolute_iff.1 (Path.isAbsolute_join_left (q := ⟨[]⟩) hs)
    simp [hrest]

theorem textRefusal?_top (hs : b.source.isAbsolute) (hne : names ≠ []) (hvalid : ValidNames names)
    (hadmitted : Admitted b.source names) : textRefusal? (b.source.join ⟨[]⟩) = none :=
  textRefusal?_top_of_descend hs hne hvalid hadmitted.1

/-- What a document needs to be listed, by its names below the source. -/
structure Listed (b : Builder) (fs : FileSystem) (s : Place) (names : List Text) : Prop where
  ne_nil : names ≠ []
  valid : ValidNames names
  top : textRefusal? (b.source.join ⟨[]⟩) = none
  admitted : Admitted b.source names
  file : ∃ content t, fs.at? (s ++ names) = some (.file content t)
  shown : ∀ a, a ≠ [] → a <+: names → b.policy.excludesPath (.ofNames a) = false

theorem mem_files_iff (hwf : fs.WellFormed) (hlf : fs.LinkFree) (hs : fs.Leads b.source s) :
    rel ∈ files (b.collect fs).1 ↔ ∃ names, rel = .ofNames names ∧ Listed b fs s names := by
  have hfile {names : List Text} (hne : names ≠ []) (hvalid : ValidNames names) :
      SourceEntry.kindAt? fs (b.source.descend names) = some .file ↔
        Admitted b.source names ∧ ∃ content t, fs.at? (s ++ names) = some (.file content t) := by
    rw [SourceEntry.kindAt?_eq_file]
    constructor
    · intro hcase
      obtain ⟨q, content, t, hstat⟩ := hcase
      obtain ⟨rfl, hat, hadmitted⟩ := (hs.stat_descend_iff hwf hlf hne hvalid).1 hstat
      exact ⟨hadmitted, content, t, hat⟩
    · intro hex
      obtain ⟨hadmitted, content, t, hat⟩ := hex
      exact ⟨_, content, t, (hs.stat_descend_iff hwf hlf hne hvalid).2 ⟨rfl, hat, hadmitted⟩⟩
  rw [mem_files, collect, collectIn]
  constructor
  · intro h
    obtain ⟨place, t, hstat⟩ := SourceEntry.stat_of_mem_collect h
    obtain ⟨names, n, hne, hvalid, hpath, -, hkind, hshown⟩ :=
      (SourceEntry.mem_collect_iff hwf hs.absolute hstat).1 h
    obtain ⟨hadmitted, hat⟩ := (hfile hne hvalid).1 hkind
    exact ⟨names, hpath, hne, hvalid, (find_of_ok (stat_eq_ok.1 hstat)).1, hadmitted, hat, hshown⟩
  · intro hl
    obtain ⟨names, hpath, hne, hvalid, hnone, hadmitted, ⟨content, u, hat⟩, hshown⟩ := hl
    obtain ⟨t, hstat⟩ := stat_top hlf hs hnone
    refine (SourceEntry.mem_collect_iff hwf hs.absolute hstat).2 ⟨names, _, hne, hvalid, hpath, hat,
      ?_, hshown⟩
    exact (hfile hne hvalid).2 ⟨hadmitted, content, u, hat⟩

theorem mem_collect_of_directory (hwf : fs.WellFormed) (hlf : fs.LinkFree)
    (hs : fs.Leads b.source s) (hne : names ≠ []) (hvalid : ValidNames names)
    (hadmitted : Admitted b.source names) {t : Nat}
    (hat : fs.at? (s ++ names) = some (.directory t))
    (hshown : ∀ a, a ≠ [] → a <+: names → b.policy.excludesPath (.ofNames a) = false) :
    ⟨.ofNames names, .directory⟩ ∈ (b.collect fs).1 := by
  obtain ⟨u, hstat⟩ := stat_top hlf hs (textRefusal?_top hs.absolute hne hvalid hadmitted)
  refine (SourceEntry.mem_collect_iff hwf hs.absolute hstat).2
    ⟨names, _, hne, hvalid, rfl, hat, ?_, hshown⟩
  exact SourceEntry.kindAt?_of_directory
    ((hs.stat_descend_iff hwf hlf hne hvalid).2 ⟨rfl, hat, hadmitted⟩)

theorem Listed.of_file {fs' : FileSystem} (h : Listed b fs s names)
    (hfile : ∃ content t, fs'.at? (s ++ names) = some (.file content t)) : Listed b fs' s names :=
  { h with file := hfile }

theorem Listed.stat (h : Listed b fs s names) (hwf : fs.WellFormed) (hlf : fs.LinkFree)
    (hs : fs.Leads b.source s) {n : Node} (hat : fs.at? (s ++ names) = some n) :
    fs.stat (b.source.join (.ofNames names)) = .ok (s ++ names, n) := by
  rw [Path.join_ofNames _ h.ne_nil h.valid.plain]
  exact (hs.stat_descend_iff hwf hlf h.ne_nil h.valid).2 ⟨rfl, hat, h.admitted⟩

theorem Listed.exists_name (h : Listed b fs s names) :
    ∃ dirs name, names = dirs ++ [name] ∧ ValidNames dirs ∧ ValidName name := by
  obtain ⟨dirs, name, rfl⟩ := (List.eq_nil_or_concat' names).resolve_left h.ne_nil
  exact ⟨dirs, name, rfl, h.valid.of_append.1, h.valid name (by simp)⟩

theorem mem_files_of_grows {fs' : FileSystem} (hwf : fs.WellFormed) (hlf : fs.LinkFree)
    (hs : fs.Leads b.source s) (h : fs.Grows fs') :
    rel ∈ files (b.collect fs').1 ↔ rel ∈ files (b.collect fs).1 := by
  rw [mem_files_iff h.wellFormed (h.linkFree hlf) (hs.mono hwf h.directory),
    mem_files_iff hwf hlf hs]
  constructor
  · intro hcase
    obtain ⟨names, hrel, hlisted⟩ := hcase
    obtain ⟨content, t, hat⟩ := hlisted.file
    exact ⟨names, hrel, hlisted.of_file ⟨content, t, h.at?_of_file hat⟩⟩
  · intro hex
    obtain ⟨names, hrel, hlisted⟩ := hex
    obtain ⟨content, t, hat⟩ := hlisted.file
    exact ⟨names, hrel, hlisted.of_file ⟨content, t, h.at?_of_some hat⟩⟩

end Builder
end StaticSite
