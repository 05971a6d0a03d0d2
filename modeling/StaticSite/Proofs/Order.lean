import Mathlib
import StaticSite.Proofs.Passes

/-! Building files in any order. Where the builds of a site do not meet, each file has the result
and the output that it has when it is built alone, whatever was built before it and whether that
failed; so all orders end with the same destination and the same report. -/
namespace StaticSite

open FileSystem

namespace Builder

variable {b : Builder} {fs cur : FileSystem} {d : Place} {rel f g : Path} {done rels : List Path}

/-- That the builds of a site do not meet. The source and the destination are apart, or the walk
through the source does not come to the destination; no include or layout is looked up in the
destination; and no output is another or is below another. -/
structure Separate (b : Builder) (fs : FileSystem) : Prop where
  destination : (¬b.source.place <+: b.destination.place ∧
    ¬b.destination.place <+: b.source.place) ∨
    b.source.place <+: b.destination.place ∧
      ∀ e ∈ (b.collect fs).1, ¬b.destination.place <+: (b.source.join e.path).place
  reads : ∀ rel ∈ files (b.collect fs).1, ∀ p ∈ b.reads fs rel, ∀ q ∈ fs.visited [] (lookupNames p),
    b.destination.place <+: q → q = b.destination.place
  outputs : ∀ f ∈ files (b.collect fs).1, ∀ g ∈ files (b.collect fs).1, f ≠ g →
    ¬(b.destinationFor f).place <+: (b.destinationFor g).place

/-- A site without links whose destination is there, and whose builds do not meet. -/
structure Site (b : Builder) (fs : FileSystem) : Prop extends Prepared b fs where
  separate : b.Separate fs

theorem Separate.detached (h : b.Separate fs) : b.Detached fs := ⟨h.destination, h.reads⟩

theorem Site.buildFile (h : Site b fs) (hrel : rel ∈ files (b.collect fs).1)
    (halike : Alike b.destination.place (b.destinationFor rel).place fs cur) :
    (b.buildFile cur rel).result = (b.buildFile fs rel).result ∧
      Parallel b.destination.place (b.destinationFor rel).place fs (b.buildFile fs rel).files cur
        (b.buildFile cur rel).files := by
  have hs := leads_source h.linkFree h.source hrel
  obtain ⟨names, rfl, hlisted⟩ := (mem_files_iff h.wellFormed h.linkFree hs).1 hrel
  obtain ⟨dirs, name, rfl, hdirs, hname⟩ := hlisted.exists_name
  rw [place_destinationFor h.destination.absolute hdirs hname] at halike ⊢
  exact buildFile_parallel halike h.wellFormed h.linkFree hs h.destination hlisted
    (h.toPrepared.not_below h.separate.detached hlisted hrel) h.includes h.layouts
      (h.separate.reads _ hrel)

theorem Site.changed (h : Site b fs) (hrel : rel ∈ files (b.collect fs).1) {q : Place}
    (hq : (b.buildFile fs rel).files.held q ≠ fs.held q) :
    q = (b.destinationFor rel).place ∨
      (q <+: (b.destinationFor rel).place ∨ (b.destinationFor rel).place <+: q) ∧
        (b.buildFile fs rel).files.held q = some (.directory 0) :=
  (h.buildFile hrel (.refl h.wellFormed h.linkFree)).2.changed hq

theorem Site.eq_of_changed (h : Site b fs) (hf : f ∈ files (b.collect fs).1)
    (hg : g ∈ files (b.collect fs).1)
    (hq : (b.buildFile fs g).files.held (b.destinationFor f).place ≠
      fs.held (b.destinationFor f).place) : g = f := by
  by_contra hgf
  have hfg := h.separate.outputs f hf g hg (Ne.symm hgf)
  have hgf := h.separate.outputs g hg f hf hgf
  rcases h.changed hg hq with heq | ⟨hpre | hpre, -⟩
  · exact hfg (heq ▸ List.prefix_refl _)
  · exact hfg hpre
  · exact hgf hpre

theorem Site.agree (h : Site b fs) (hf : f ∈ files (b.collect fs).1)
    (hg : g ∈ files (b.collect fs).1) {q : Place}
    (hfq : (b.buildFile fs f).files.held q ≠ fs.held q)
    (hgq : (b.buildFile fs g).files.held q ≠ fs.held q) :
    (b.buildFile fs f).files.held q = (b.buildFile fs g).files.held q := by
  cases h.changed hf hfq with
  | inl he =>
    subst he
    rw [h.eq_of_changed hf hg hgq]
  | inr hrest =>
    obtain ⟨-, hfdir⟩ := hrest
    cases h.changed hg hgq with
    | inl heq =>
      subst heq
      rw [h.eq_of_changed hg hf hfq]
    | inr hcase =>
      obtain ⟨-, hgdir⟩ := hcase
      rw [hfdir, hgdir]

/-! ### Runs -/

/-- The state after some files were built: where one of them alone changes something it is changed,
and all else is as it was. What is not built yet does not see the difference. -/
structure Merged (b : Builder) (fs : FileSystem) (done : List Path) (cur : FileSystem) : Prop where
  wellFormed : cur.WellFormed
  linkFree : cur.LinkFree
  directory : ∀ r t, fs.at? r = some (.directory t) → ∃ u, cur.at? r = some (.directory u)
  alike : ∀ rel ∈ files (b.collect fs).1, rel ∉ done →
    Alike b.destination.place (b.destinationFor rel).place fs cur
  held : ∀ q, (∃ f ∈ done, (b.buildFile fs f).files.held q ≠ fs.held q ∧
    cur.held q = (b.buildFile fs f).files.held q) ∨
    (∀ f ∈ done, (b.buildFile fs f).files.held q = fs.held q) ∧ cur.held q = fs.held q

theorem Merged.start (h : Site b fs) : Merged b fs [] fs :=
  ⟨h.wellFormed, h.linkFree, fun _ t ht => ⟨t, ht⟩, fun _ _ _ => .refl h.wellFormed h.linkFree,
    fun _ => .inr ⟨by simp, rfl⟩⟩

theorem Merged.buildFile (hm : Merged b fs done cur) (h : Site b fs)
    (hrel : rel ∈ files (b.collect fs).1) (hnew : rel ∉ done) :
    Merged b fs (done ++ [rel]) (b.buildFile cur rel).files := by
  have halike := hm.alike rel hrel hnew
  obtain ⟨-, hparallel⟩ := h.buildFile hrel halike
  obtain ⟨hwf, hlf, hdir⟩ := hparallel.sound
  refine ⟨hwf, hlf, fun r t hr => ?_, fun g hg hgdone => ?_, fun q => ?_⟩
  · obtain ⟨u, hu⟩ := hm.directory r t hr
    exact hdir r u hu
  · rw [List.mem_append, List.mem_singleton, not_or] at hgdone
    exact (hm.alike g hg hgdone.1).keep hparallel
      (h.separate.outputs _ hrel _ hg (Ne.symm hgdone.2))
      (h.separate.outputs _ hg _ hrel hgdone.2)
  · rw [halike.held_parallel hparallel q]
    by_cases hsame : (b.buildFile fs rel).files.held q = fs.held q
    · rw [if_pos hsame]
      cases hm.held q with
      | inl hcase =>
        obtain ⟨f, hf, hchange, heq⟩ := hcase
        exact .inl ⟨f, List.mem_append_left _ hf, hchange, heq⟩
      | inr hcase =>
        obtain ⟨hnone, heq⟩ := hcase
        refine .inr ⟨fun f hf => ?_, heq⟩
        cases List.mem_append.1 hf with
        | inl hf => exact hnone f hf
        | inr hf =>
          rw [List.mem_singleton.1 hf]
          exact hsame
    · rw [if_neg hsame]
      exact .inl ⟨rel, by simp, hsame, rfl⟩

/-- A run over files that are all different and not built yet. -/
theorem Merged.buildFiles (hm : Merged b fs done cur) (h : Site b fs)
    (hrels : ∀ rel ∈ rels, rel ∈ files (b.collect fs).1) (hnodup : (done ++ rels).Nodup) :
    Merged b fs (done ++ rels) (b.buildFiles cur rels).files ∧
      (b.buildFiles cur rels).result = rels.map fun rel =>
      (b.buildFile fs rel).result.toOption := by
  induction rels generalizing done cur with
  | nil => exact ⟨by simpa [Builder.buildFiles] using hm, rfl⟩
  | cons rel rels ih =>
    have hrel := hrels rel (by simp)
    have hnew : rel ∉ done := by
      rw [List.nodup_append] at hnodup
      exact fun hmem => hnodup.2.2 _ hmem _ List.mem_cons_self rfl
    obtain ⟨hresult, -⟩ := h.buildFile hrel (hm.alike rel hrel hnew)
    obtain ⟨hmerged, hrest⟩ := ih (hm.buildFile h hrel hnew) (fun r hr => hrels r (by simp [hr]))
      (by simpa using hnodup)
    rw [Builder.buildFiles, hresult]
    refine ⟨by simpa using hmerged, ?_⟩
    rw [List.map_cons]
    cases hone : (b.buildFile fs rel).result with
    | error e => simp [hrest, Except.toOption]
    | ok outcome => simp [hrest, Except.toOption]

theorem Merged.held_output (hm : Merged b fs rels cur) (h : Site b fs)
    (hrels : ∀ rel ∈ rels, rel ∈ files (b.collect fs).1) (hrel : rel ∈ rels) :
    cur.held (b.destinationFor rel).place = (b.buildFile fs rel).files.held
    (b.destinationFor rel).place := by
  cases hm.held (b.destinationFor rel).place with
  | inl hcase =>
    obtain ⟨g, hg, hchange, heq⟩ := hcase
    rw [heq, h.eq_of_changed (hrels rel hrel) (hrels g hg) hchange]
  | inr hcase =>
    obtain ⟨hnone, heq⟩ := hcase
    rw [heq, hnone rel hrel]

theorem Merged.read_output (hm : Merged b fs rels cur) (h : Site b fs)
    (hrels : ∀ rel ∈ rels, rel ∈ files (b.collect fs).1) (hrel : rel ∈ rels) :
    (cur.read (b.destinationFor rel)).toOption =
      ((b.buildFile fs rel).files.read (b.destinationFor rel)).toOption := by
  have hheld := hm.held_output h hrels hrel
  obtain ⟨hwf, hlf, hdir⟩ := (h.buildFile (hrels rel hrel) (.refl h.wellFormed h.linkFree)).2.sound
  obtain ⟨names, rfl, hlisted⟩ :=
    (mem_files_iff h.wellFormed h.linkFree (leads_source h.linkFree h.source (hrels _ hrel))).1
      (hrels _ hrel)
  obtain ⟨dirs, name, rfl, hdirs, hname⟩ := hlisted.exists_name
  have ho : Path.Plain (b.outputName dirs name) := plain_outputName hname
  rw [place_destinationFor h.destination.absolute hdirs hname, Path.follow,
    if_neg ho.ne_dot] at hheld
  rw [destinationFor_ofNames h.destination.absolute hdirs hname]
  refine Option.ext fun content => ?_
  rw [(h.destination.mono h.wellFormed hm.directory).read_descend hm.wellFormed hm.linkFree hdirs
    ho,
    (h.destination.mono h.wellFormed hdir).read_descend hwf hlf hdirs ho]
  refine and_congr_right fun hdots => ?_
  rw [if_neg hdots, List.append_assoc] at hheld
  rw [hheld]

theorem Merged.held_eq {rels' : List Path} {cur' : FileSystem} (hm : Merged b fs rels cur)
    (hm' : Merged b fs rels' cur') (h : Site b fs)
    (hrels : ∀ rel ∈ rels, rel ∈ files (b.collect fs).1) (hsame : ∀ rel, rel ∈ rels' ↔ rel ∈ rels)
    (q : Place) : cur'.held q = cur.held q := by
  cases hm.held q with
  | inl hl =>
    obtain ⟨f, hf, hchange, heq⟩ := hl
    cases hm'.held q with
    | inl hfirst =>
      obtain ⟨g, hg, hchange', heq'⟩ := hfirst
      rw [heq, heq']
      exact h.agree (hrels g ((hsame g).1 hg)) (hrels f hf) hchange' hchange
    | inr hrest =>
      obtain ⟨hnone', -⟩ := hrest
      exact absurd (hnone' f ((hsame f).2 hf)) hchange
  | inr hr =>
    obtain ⟨hnone, heq⟩ := hr
    cases hm'.held q with
    | inl hcase =>
      obtain ⟨g, hg, hchange', -⟩ := hcase
      exact absurd (hnone g ((hsame g).1 hg)) hchange'
    | inr hcase =>
      obtain ⟨-, heq'⟩ := hcase
      rw [heq, heq']

theorem site_of_load {c : Config} {cli : CommandLine} {start before : FileSystem}
    (hstart : start.WellFormed) (hload : Config.load start cli = .ok c) (hwf : before.WellFormed)
    (hlf : before.LinkFree) (hmade : before.makeAll c.destination = (fs, none))
    (hseparate : (ofConfig c).Separate fs) : Site (ofConfig c) fs :=
  { prepared_of_load hstart hload hwf hlf hmade with separate := hseparate }

/-- The files of a site may be built in any order. Whichever of them are built, and whether they
fail, each has the result that it has alone, and at its output is what it alone leaves there; and
all of them in any order leave the same everywhere and give the same report as a build of the
tree. -/
theorem buildFiles_independent {c : Config} {cli : CommandLine} {start before : FileSystem}
    (hstart : start.WellFormed) (hload : Config.load start cli = .ok c) (hwf : before.WellFormed)
    (hlf : before.LinkFree) (hmade : before.makeAll c.destination = (fs, none))
    (hseparate : (ofConfig c).Separate fs) :
    (∀ rels, rels.Subperm (files ((ofConfig c).collect fs).1) →
      (∀ earlier rel later, rels = earlier ++ rel :: later →
        ((ofConfig c).buildFile ((ofConfig c).buildFiles fs earlier).files rel).result =
          ((ofConfig c).buildFile fs rel).result) ∧
      ∀ rel ∈ rels, (((ofConfig c).buildFiles fs rels).files.read
        ((ofConfig c).destinationFor rel)).toOption =
        (((ofConfig c).buildFile fs rel).files.read ((ofConfig c).destinationFor rel)).toOption) ∧
    ∀ rels, rels.Perm (files ((ofConfig c).collect fs).1) →
      (∀ q, ((ofConfig c).buildFiles fs rels).files.held q =
        ((ofConfig c).buildTree before).files.held q) ∧
      ((ofConfig c).buildTree before).result =
        .ok (.ofOutcomes ((ofConfig c).buildFiles fs rels).result) := by
  have h := site_of_load hstart hload hwf hlf hmade hseparate
  have hnodup := nodup_files (b := ofConfig c) h.wellFormed h.source
  -- A run leaves a state that is merged of what each file does alone, and such a state depends on
  -- which files were built and not on their order.
  have hrun {rels : List Path} (hrels : ∀ rel ∈ rels, rel ∈ files ((ofConfig c).collect fs).1)
      (hnd : rels.Nodup) :=
    (Merged.start h).buildFiles h hrels (by simpa using hnd)
  simp only [List.nil_append] at hrun
  constructor
  · intro rels hrels
    obtain ⟨l, hperm, hsub⟩ := hrels
    have hnd : rels.Nodup := hperm.nodup_iff.1 (hnodup.sublist hsub)
    have hmem : ∀ rel ∈ rels, rel ∈ files ((ofConfig c).collect fs).1 :=
      fun rel hrel => hsub.subset (hperm.mem_iff.2 hrel)
    refine ⟨fun earlier rel later heq => ?_,
      fun rel hrel => (hrun hmem hnd).1.read_output h hmem hrel⟩
    subst heq
    have hearlier := List.nodup_append.1 hnd
    have hmerged := (hrun (fun r hr => hmem r (by simp [hr])) hearlier.1).1
    have hrel := hmem rel (by simp)
    refine (h.buildFile hrel (hmerged.alike rel hrel fun hin => ?_)).1
    exact hearlier.2.2 rel hin rel List.mem_cons_self rfl
  · intro rels hperm
    have hmem : ∀ rel ∈ rels, rel ∈ files ((ofConfig c).collect fs).1 :=
      fun rel hrel => hperm.mem_iff.1 hrel
    obtain ⟨hmerged, hresult⟩ := hrun hmem (hperm.nodup_iff.2 hnodup)
    obtain ⟨hmerged', hresult'⟩ := hrun (fun _ hr => hr) hnodup
    obtain ⟨hfiles, hreport⟩ := buildTree_of_made (b := ofConfig c) hmade
    rw [hfiles, hreport, hresult, hresult']
    refine ⟨hmerged'.held_eq hmerged h (fun _ hr => hr) fun rel => hperm.mem_iff, ?_⟩
    rw [BuildReport.ofOutcomes_perm (hperm.map _)]

def notesSite : FileSystem where
  nodes := [(["w".toList], .directory 0), (["w".toList, "_includes".toList], .directory 0),
    (["w".toList, "_includes".toList, "n".toList], .file [110] 1),
    (["w".toList, "a.html".toList],
      .file (Text.Utf8.encode "---\n---\n\x7b% include n %\x7d".toList) 1),
    (["w".toList, "b".toList], .file [98] 2)]
  here := ["w".toList]
  clock := 5

def notesSiteMade : FileSystem where
  nodes := (["w".toList, "_site".toList], .directory 5) :: notesSite.nodes
  here := ["w".toList]
  clock := 6
  changed := [(["w".toList], 5)]

def notesSiteConfig : Config where
  root := some (.ofString "/w")
  configPath := .ofString "/w/_config.toml"
  source := .ofString "/w"
  destination := .ofString "/w/_site"
  layouts := .ofString "/w/_layouts"
  includes := .ofString "/w/_includes"

theorem notesSite_load :
    Config.load notesSite ⟨none, .ofString "_config.toml", none, some (.ofString "_site"),
      .build false⟩ =
      .ok notesSiteConfig := by
  cbv

theorem notesSite_makeAll : notesSite.makeAll notesSiteConfig.destination =
      (notesSiteMade, none) := by cbv

theorem notesSite_transforms :
    (ofConfig notesSiteConfig).transforms.transformFor (.ofString "a.html") = .render none ∧
      (ofConfig notesSiteConfig).transforms.transformFor (.ofString "b") = .copy := by
  have hpage : Name.extension? (Path.ofString "a.html").text = some "html".toList := by decide
  have hcopy : Name.extension? (Path.ofString "b").text = none := by decide
  rw [TransformTable.transformFor, TransformTable.transformFor, hpage, hcopy]
  exact ⟨rfl, rfl⟩

theorem notesSite_shown :
    (ofConfig notesSiteConfig).policy.excludesPath (.ofString "a.html") = false ∧
      (ofConfig notesSiteConfig).policy.excludesPath (.ofString "b") = false := by
  constructor <;> cbv

theorem notesSiteMade_reads :
    (ofConfig notesSiteConfig).reads notesSiteMade (.ofString "a.html") =
      [.ofString "/w/_includes/n"] ∧
      (ofConfig notesSiteConfig).reads notesSiteMade (.ofString "b") = [] := by
  have hdecide : (ofConfig notesSiteConfig).decide notesSiteMade (.ofString "a.html") =
      .ok (.render none) := by
    rw [Builder.decide, destinationFor, notesSite_transforms.1]
    cbv
  have hdecide' : (ofConfig notesSiteConfig).decide notesSiteMade (.ofString "b") = .ok .copy := by
    rw [Builder.decide, destinationFor, notesSite_transforms.2]
    cbv
  have hread : notesSiteMade.read ((ofConfig notesSiteConfig).source.join (.ofString "a.html")) =
      .ok (Text.Utf8.encode "---\n---\n\x7b% include n %\x7d".toList) := by cbv
  have hverbatim : (ofConfig notesSiteConfig).pages.copiesVerbatim
      (Text.Utf8.encode "---\n---\n\x7b% include n %\x7d".toList) = false := by cbv
  have hdecode : Text.Utf8.decode (Text.Utf8.encode "---\n---\n\x7b% include n %\x7d".toList) =
      .ok "---\n---\n\x7b% include n %\x7d".toList := by cbv
  have hdocument : Document.ofText "---\n---\n\x7b% include n %\x7d".toList =
      .ok ⟨some .empty, "\x7b% include n %\x7d".toList⟩ := by cbv
  have hpage : (ofConfig notesSiteConfig).pages.reads notesSiteMade (.ofString "a.html")
      "---\n---\n\x7b% include n %\x7d".toList none = [.ofString "/w/_includes/n"] := by
    rw [PageRules.reads, hdocument]
    cbv
  rw [reads, notesSite_shown.1, hdecide, reads, notesSite_shown.2, hdecide']
  simp only [hread, hverbatim, hdecode, hpage]
  exact ⟨rfl, rfl⟩

theorem notesSiteMade_collect :
    ((ofConfig notesSiteConfig).collect notesSiteMade).1 =
      [⟨.ofString "a.html", .file⟩, ⟨.ofString "b", .file⟩] :=
  collectIn_of_entries ["w".toList]
    [("_includes".toList, .directory 0), ("_site".toList, .directory 5),
      ("a.html".toList, .file (Text.Utf8.encode "---\n---\n\x7b% include n %\x7d".toList) 1),
      ("b".toList, .file [98] 2)]
    [[], [], [_], [_]] (by cbv) (by cbv) (by cbv)
    (.cons (SourceEntry.under_of_excluded rfl (by cbv)) <|
      .cons (SourceEntry.under_of_excluded rfl (by cbv)) <|
      .cons (SourceEntry.under_of_kind (by cbv) notesSite_shown.1 (by cbv) rfl) <|
      .cons (SourceEntry.under_of_kind (by cbv) notesSite_shown.2 (by cbv) rfl) .nil)

theorem notesSiteMade_files :
    files ((ofConfig notesSiteConfig).collect notesSiteMade).1 =
      [.ofString "a.html", .ofString "b"] := by
  rw [notesSiteMade_collect]
  rfl

theorem notesSiteMade_separate : (ofConfig notesSiteConfig).Separate notesSiteMade := by
  have hdest : (ofConfig notesSiteConfig).destination.place = ["w".toList, "_site".toList] := by cbv
  have hsource : (ofConfig notesSiteConfig).source.place = ["w".toList] := by cbv
  refine ⟨.inr ⟨?_, ?_⟩, ?_, ?_⟩
  · rw [hdest, hsource]
    decide
  · have hpage : ((ofConfig notesSiteConfig).source.join (.ofString "a.html")).place =
        ["w".toList, "a.html".toList] := by
      cbv
    have hcopy : ((ofConfig notesSiteConfig).source.join (.ofString "b")).place =
        ["w".toList, "b".toList] := by cbv
    rw [notesSiteMade_collect, hdest]
    simp only [List.forall_mem_cons, hpage, hcopy]
    decide
  · have hvisited : notesSiteMade.visited [] (lookupNames (.ofString "/w/_includes/n")) =
        [["w".toList], ["w".toList, "_includes".toList],
          ["w".toList, "_includes".toList, "n".toList]] := by cbv
    rw [notesSiteMade_files, hdest]
    simp only [List.forall_mem_cons, notesSiteMade_reads.1, notesSiteMade_reads.2, hvisited]
    decide
  · have hpage : ((ofConfig notesSiteConfig).destinationFor (.ofString "a.html")).place =
        ["w".toList, "_site".toList, "a.html".toList] := by
      rw [destinationFor, notesSite_transforms.1]
      cbv
    have hcopy : ((ofConfig notesSiteConfig).destinationFor (.ofString "b")).place =
        ["w".toList, "_site".toList, "b".toList] := by
      rw [destinationFor, notesSite_transforms.2]
      cbv
    rw [notesSiteMade_files]
    simp only [List.forall_mem_cons, List.not_mem_nil, false_implies, implies_true, and_true, hpage,
      hcopy]
    decide

/-- The two files of the site built the other way round give the report of the tree. -/
theorem notesSite_any_order :
    ((ofConfig notesSiteConfig).buildTree notesSite).result =
      .ok (.ofOutcomes
        ((ofConfig notesSiteConfig).buildFiles notesSiteMade
          [.ofString "b", .ofString "a.html"]).result) := by
  have h := buildFiles_independent (by decide) notesSite_load (by decide) (by decide)
    notesSite_makeAll notesSiteMade_separate
  refine (h.2 [.ofString "b", .ofString "a.html"] ?_).2
  rw [notesSiteMade_files]
  exact .swap _ _ _

/-- A site whose output has one newer file, and whose destination goes through a directory that is
not there. -/
def detourSite : FileSystem where
  nodes := [(["w".toList], .directory 0), (["w".toList, "src".toList], .directory 0),
    (["w".toList, "src".toList, "a".toList], .file [97] 1),
    (["w".toList, "src".toList, "b".toList], .file [98] 1),
    (["w".toList, "out".toList], .directory 0),
    (["w".toList, "out".toList, "a".toList], .file [122] 2)]
  here := ["w".toList]
  clock := 5

def detourSiteConfig : Config where
  root := some (.ofString "/w")
  configPath := .ofString "/w/_config.toml"
  source := .ofString "/w/src"
  destination := .ofString "/w/new/../out"
  layouts := .ofString "/w/src/_layouts"
  includes := .ofString "/w/src/_includes"

theorem detourSite_load :
    Config.load detourSite ⟨none, .ofString "_config.toml", some (.ofString "src"),
      some (.ofString "new/../out"), .build false⟩ = .ok detourSiteConfig := by
  cbv

theorem detourSite_collect :
    ((ofConfig detourSiteConfig).collect detourSite).1 =
      [⟨.ofString "a", .file⟩, ⟨.ofString "b", .file⟩] :=
  collectIn_of_entries ["w".toList, "src".toList]
    [("a".toList, .file [97] 1), ("b".toList, .file [98] 1)] [[_], [_]] (by cbv) (by cbv) (by cbv)
    (.cons (SourceEntry.under_of_kind (by cbv) (by cbv) (by cbv) rfl) <|
      .cons (SourceEntry.under_of_kind (by cbv) (by cbv) (by cbv) rfl) .nil)

theorem detourSite_separate : (ofConfig detourSiteConfig).Separate detourSite := by
  have hfiles : files ((ofConfig detourSiteConfig).collect detourSite).1 =
      [.ofString "a", .ofString "b"] := by
    rw [detourSite_collect]
    rfl
  have hdest : (ofConfig detourSiteConfig).destination.place = ["w".toList, "out".toList] := by cbv
  have hsource : (ofConfig detourSiteConfig).source.place = ["w".toList, "src".toList] := by cbv
  have hreads : (ofConfig detourSiteConfig).reads detourSite (.ofString "a") = [] ∧
      (ofConfig detourSiteConfig).reads detourSite (.ofString "b") = [] := by constructor <;> cbv
  have houtputs : ((ofConfig detourSiteConfig).destinationFor (.ofString "a")).place =
        ["w".toList, "out".toList, "a".toList] ∧
      ((ofConfig detourSiteConfig).destinationFor (.ofString "b")).place =
        ["w".toList, "out".toList, "b".toList] := by constructor <;> cbv
  refine ⟨.inl ?_, ?_, ?_⟩
  · rw [hdest, hsource]
    decide
  · rw [hfiles]
    simp only [List.forall_mem_cons, hreads.1, hreads.2]
    simp
  · rw [hfiles]
    simp only [List.forall_mem_cons, List.not_mem_nil, false_implies, implies_true, and_true,
      houtputs.1, houtputs.2]
    decide

/-- Where the destination is not there yet, the first file that is built may bring an output of
another one to light, which then is not built. -/
theorem not_always_independent :
    ¬∀ (fs : FileSystem) (cli : CommandLine) (c : Config) (earlier later : List Path) (rel : Path),
      fs.WellFormed → fs.LinkFree → Config.load fs cli = .ok c → (ofConfig c).Separate fs →
      (earlier ++ rel :: later).Perm (files ((ofConfig c).collect fs).1) →
      ((ofConfig c).buildFile ((ofConfig c).buildFiles fs earlier).files rel).result =
        ((ofConfig c).buildFile fs rel).result := by
  intro h
  have hsame := h detourSite _ _ [.ofString "b"] [] (.ofString "a") (by decide) (by decide)
    detourSite_load detourSite_separate (by rw [detourSite_collect]; exact .swap _ _ _)
  have halone : ((ofConfig detourSiteConfig).buildFile detourSite (.ofString "a")).result =
      .ok .copied := by cbv
  have hafter : ((ofConfig detourSiteConfig).buildFile
      ((ofConfig detourSiteConfig).buildFiles detourSite [.ofString "b"]).files
        (.ofString "a")).result = .ok .skipped := by cbv
  rw [halone, hafter] at hsame
  cases hsame

end Builder
end StaticSite
