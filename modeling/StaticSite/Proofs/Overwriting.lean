import StaticSite.Proofs.Staging

/-! When a build overwrites a source: exactly when some document has its output on another one, once
the destination is made. A destination that goes up out of a directory which is not there yet
escapes the check for destinations that hold the source, and can lead to this. -/
namespace StaticSite

open FileSystem

namespace Builder

variable {b : Builder} {fs made : FileSystem} {s d : Place} {f g : List Text}

theorem apart_of_sameShape {made' : FileSystem} (hwf : made.WellFormed) (hlf : made.LinkFree)
    (hs : made.Leads b.source s) (hd : made.Leads b.destination d) (h : SameShape made made')
    (hapart : b.Apart made) :
    b.Apart made' := by
  intro f hf g hg q m n hfm hgn
  have hf' := (mem_files_of_sameShape hwf hlf hs h).1 hf
  have hg' := (mem_files_of_sameShape hwf hlf hs h).1 hg
  obtain ⟨names, rfl, hlisted⟩ := (mem_files_iff hwf hlf hs).1 hf'
  obtain ⟨dirs, name, rfl, hdirs, hname⟩ := hlisted.exists_name
  have habs : (b.destinationFor (.ofNames (dirs ++ [name]))).isAbsolute := by
    rw [destinationFor_ofNames hd.absolute hdirs hname]
    exact Path.isAbsolute_descend hd.absolute _
  obtain ⟨m', hm'⟩ := h.stat hlf habs hfm
  obtain ⟨n', hn'⟩ := h.stat hlf (Path.isAbsolute_join_left hs.absolute) hgn
  exact hapart _ hf' _ hg' q m' n' hm' hn'

theorem covers_of_stat (hwf : made.WellFormed) (hlf : made.LinkFree) (hs : made.Leads b.source s)
    (hd : made.Leads b.destination d) (hf : Listed b made s f) (hg : Listed b made s g)
    (hfg : f ≠ g) {q : Place} {m n : Node}
    (hfm : made.stat (b.destinationFor (.ofNames f)) = .ok (q, m))
    (hgn : made.stat (b.source.join (.ofNames g)) = .ok (q, n)) :
    Covers b s d f g ∧ ∀ dirs name, f = dirs ++ [name] →
    Admitted b.destination (dirs ++ [b.outputName dirs name]) := by
  obtain ⟨content, t, hat⟩ := hg.file
  rw [hg.stat hwf hlf hs hat, Except.ok.injEq, Prod.mk.injEq] at hgn
  obtain ⟨rfl, rfl⟩ := hgn
  have hkey {dirs : List Text} {name : Text} (hname : f = dirs ++ [name]) :
      s ++ g = d ++ (dirs ++ [b.outputName dirs name]) ∧
      Admitted b.destination (dirs ++ [b.outputName dirs name]) := by
    subst hname
    have hdirs := hf.valid.of_append.1
    have hvalid := hf.valid name (by simp)
    have hout := destinationFor_ofNames hd.absolute hdirs hvalid
    have habs : (b.destinationFor (.ofNames (dirs ++ [name]))).isAbsolute := by
      rw [hout]
      exact Path.isAbsolute_descend hd.absolute _
    obtain ⟨hm, -⟩ := hwf.at?_of_stat habs hfm
    rw [hat, Option.some.injEq] at hm
    have htarget : made.target (b.destination.descend (dirs ++ [b.outputName dirs name])) =
        .ok (s ++ g) := by
      rw [← hout, target, stat_eq_ok.1 hfm, ← hm]
    obtain ⟨-, hplace, hadmitted⟩ :=
      hd.target_descend hwf hlf hdirs (plain_outputName hvalid) htarget
    exact ⟨hplace, hadmitted _ hat⟩
  obtain ⟨dirs, name, hname, -⟩ := hf.exists_name
  exact ⟨⟨hfg, hg.valid, dirs, name, hname, (hkey hname).1⟩, fun dirs name hname => (hkey hname).2⟩

theorem at?_makeAll_stage (hwf : fs.WellFormed) (hlf : fs.LinkFree) (hd : b.destination.isAbsolute)
    {p : Place} {content : Bytes} {made' : FileSystem} {e : Option IoError}
    (hmade : (fs.stage p content).makeAll b.destination = (made', e)) {names : List Text}
    (h : Listed b made' s names) :
    made'.at? (s ++ names) = (fs.stage p content).at? (s ++ names) ∧
      made'.at? (s ++ names) = some (if s ++ names = p then .file [] 1 else .file content 0) := by
  have hshape := sameShape_stage hwf hlf p content
  have hgrows := grows_of_makeAll hshape.wellFormed hd hmade
  obtain ⟨c, t, hat⟩ := h.file
  have hat' := hgrows.at?_of_file hat
  obtain ⟨c', t', hfs⟩ := hshape.file_iff.1 ⟨c, t, hat'⟩
  refine ⟨hat.trans hat'.symm, ?_⟩
  rw [hat, ← hat', at?_stage, hfs]
  rfl

/-- If some output lies on another document, the build of a staged state overwrites it. -/
theorem exists_overwritten (hwf : fs.WellFormed) (hlf : fs.LinkFree) (hs : fs.Leads b.source s)
    (hd : b.destination.isAbsolute) (hmade : fs.makeAll b.destination = (made, none))
    (hapart : ¬b.Apart made) :
    ∃ fs', SameShape fs fs' ∧ ∃ rel ∈ files (b.collect fs').1,
      (b.buildTree fs').files.read (b.source.join rel) ≠ fs'.read (b.source.join rel) := by
  obtain ⟨d, hdest⟩ := leads_of_makeAll hwf hlf hd hmade
  have hgrows : fs.Grows made := grows_of_makeAll hwf hd hmade
  have hmadeLF := hgrows.linkFree hlf
  have hmadeS := hs.mono hwf hgrows.directory
  simp only [Apart, not_forall] at hapart
  obtain ⟨x, hx, y, hy, q, m, n, hfm, hgn, hxy⟩ := hapart
  obtain ⟨f, rfl, hf⟩ := (mem_files_iff hgrows.wellFormed hmadeLF hmadeS).1 hx
  obtain ⟨g, rfl, hg⟩ := (mem_files_iff hgrows.wellFormed hmadeLF hmadeS).1 hy
  have hfg : f ≠ g := fun he => hxy (by rw [he])
  obtain ⟨hcovers, hadmitted⟩ :=
    covers_of_stat hgrows.wellFormed hmadeLF hmadeS hdest hf hg hfg hfm hgn
  obtain ⟨rank, step, hpos, hrank⟩ := exists_rank b s d
  -- The staged state, and what it becomes when the destination is made.
  have hshape := sameShape_stage hwf hlf (s ++ f) (0 :: b.emptyOutput (.ofNames f))
  obtain ⟨he, hshape'⟩ := hshape.makeAll hwf hlf hd
  obtain ⟨made', hmade'⟩ : ∃ made', (fs.stage (s ++ f) (0 :: b.emptyOutput (.ofNames f))).makeAll
    b.destination =
      (made', none) := ⟨_, Prod.ext rfl (he.trans (by rw [hmade]))⟩
  rw [hmade, hmade'] at hshape'
  have hlist {names : List Text} (h : Listed b made s names) : Listed b made' s names :=
    h.of_file (hshape'.file_iff.2 h.file)
  have hnode {names : List Text} (h : Listed b made' s names) :=
    at?_makeAll_stage hwf hlf hd hmade' h
  have hold {names : List Text} (h : Listed b made' s names) (hne : names ≠ f) :
      made'.at? (s ++ names) = some (.file (0 :: b.emptyOutput (.ofNames f)) 0) := by
    rw [(hnode h).2, if_neg fun he => hne (List.append_cancel_left he)]
  have hexposed : Exposed b s d made' rank step f g := {
    wellFormed := hshape'.wellFormed
    linkFree := hshape'.linkFree
    source := hmadeS.mono hgrows.wellFormed hshape'.directory
    destination := hdest.mono hgrows.wellFormed hshape'.directory
    newer := hlist hf
    older := hlist hg
    new := by rw [(hnode (hlist hf)).2, if_pos rfl]
    old := fun names h hne => ⟨_, hold h hne⟩
    covers := hcovers
    admitted := hadmitted
    pos := hpos
    rank := hrank }
  have hstart : Staged b s made' rank f g made' :=
    ⟨hexposed.wellFormed, hexposed.linkFree, fun _ t ht => ⟨t, ht⟩, fun _ h => h.file,
      fun _ _ _ => rfl, .inl rfl⟩
  have hmem := (mem_files_iff hexposed.wellFormed hexposed.linkFree hexposed.source).2
    ⟨f, rfl, hexposed.newer⟩
  obtain ⟨hend, t, hover⟩ := hstart.buildFiles hexposed (fun _ h => h) (.inr hmem)
  -- The covered document before and after.
  have hgat := (hnode hexposed.older).1.symm.trans (hold hexposed.older hfg.symm)
  have hglist := hexposed.older.of_file ⟨_, _, hgat⟩
  have hs' := hs.mono hwf hshape.directory
  have hread : (fs.stage (s ++ f) (0 :: b.emptyOutput (.ofNames f))).read
      (b.source.join (.ofNames g)) =
      .ok (0 :: b.emptyOutput (.ofNames f)) := by
    rw [FileSystem.read, hglist.stat hshape.wellFormed hshape.linkFree hs' hgat]
  have hread' : (b.buildTree (fs.stage (s ++ f) (0 :: b.emptyOutput (.ofNames f)))).files.read
      (b.source.join (.ofNames g)) = .ok (b.emptyOutput (.ofNames f)) := by
    have hsource := hexposed.source.mono hexposed.wellFormed hend.directory
    rw [buildTree, hmade']
    rw [FileSystem.read, (hend.listed hexposed.older).stat hend.wellFormed hend.linkFree hsource
      hover]
  refine ⟨_, hshape, .ofNames g,
    (mem_files_iff hshape.wellFormed hshape.linkFree hs').2 ⟨g, rfl, hglist⟩, ?_⟩
  rw [hread, hread']
  intro he
  have := congrArg List.length (Except.ok.inj he)
  simp at this

/-- Sources are kept, whatever they hold and whenever they were written, exactly if no listed
document has its output on another once the destination is made: by the builds in every order, and
by the one in the order of the list. Without links only a destination that leads back into the
source can break this, such as one that goes up out of a directory still to be made. -/
theorem sources_kept_iff_apart {c : Config} {cli : CommandLine} (hfs : fs.WellFormed)
    (hlf : fs.LinkFree) (hload : Config.load fs cli = .ok c) :
    ((∀ fs', SameShape fs fs' → ∀ rel ∈ files ((ofConfig c).collect fs').1,
        ∀ after, Built (ofConfig c) fs' after →
          after.read (c.source.join rel) = fs'.read (c.source.join rel)) ↔
      ∀ made, fs.makeAll c.destination = (made, none) → (ofConfig c).Apart made) ∧
    ((∀ fs', SameShape fs fs' → ∀ rel ∈ files ((ofConfig c).collect fs').1,
        ((ofConfig c).buildTree fs').files.read (c.source.join rel) =
          fs'.read (c.source.join rel)) ↔
      ∀ made, fs.makeAll c.destination = (made, none) → (ofConfig c).Apart made) := by
  have hc := Config.loaded_of_load hfs hload
  obtain ⟨s, t, hsource, hstat⟩ := hc.source
  have habs : c.source.isAbsolute :=
    (congrArg Path.isAbsolute hsource).trans (Path.isAbsolute_ofPlace s)
  have hs : fs.Leads (ofConfig c).source s := .of_stat hlf habs hstat
  have hd : (ofConfig c).destination.isAbsolute := hc.destination.isAbsolute
  have hall (hapart : ∀ made, fs.makeAll c.destination = (made, none) → (ofConfig c).Apart made)
      {fs' : FileSystem} (hshape : SameShape fs fs') {rel : Path}
      (hrel : rel ∈ files ((ofConfig c).collect fs').1) {after : FileSystem}
      (hbuilt : Built (ofConfig c) fs' after) :
      after.read (c.source.join rel) = fs'.read (c.source.join rel) := by
    have hmake := hshape.makeAll hfs hlf hd
    refine read_of_built hshape.wellFormed hshape.linkFree (hs.mono hfs hshape.directory) hd ?_ hrel
      hbuilt
    intro made' hmade'
    rw [hmade'] at hmake
    have hmade : fs.makeAll c.destination = ((fs.makeAll c.destination).1, none) :=
      Prod.ext rfl hmake.1.symm
    have hgrows : fs.Grows (fs.makeAll c.destination).1 := makeAll_grows hfs hd
    obtain ⟨d, hdest⟩ := leads_of_makeAll hfs hlf hd hmade
    exact apart_of_sameShape hgrows.wellFormed (hgrows.linkFree hlf) (hs.mono hfs hgrows.directory)
      hdest hmake.2 (hapart _ hmade)
  -- If two meet, a state is staged in which one of them is empty and newer than the other.
  have hlist (hkept : ∀ fs', SameShape fs fs' → ∀ rel ∈ files ((ofConfig c).collect fs').1,
      ((ofConfig c).buildTree fs').files.read (c.source.join rel) = fs'.read (c.source.join rel))
      (made : FileSystem) (hmade : fs.makeAll c.destination = (made, none)) :
      (ofConfig c).Apart made := by
    by_contra hapart
    obtain ⟨fs', hshape, rel, hrel, hne⟩ := exists_overwritten hfs hlf hs hd hmade hapart
    exact hne (hkept fs' hshape rel hrel)
  exact ⟨⟨fun hkept => hlist fun fs' hshape rel hrel =>
    hkept fs' hshape rel hrel _ (built_buildTree _ fs'),
      fun hapart fs' hshape rel hrel after => hall hapart hshape hrel⟩,
    ⟨hlist, fun hapart fs' hshape rel hrel => hall hapart hshape hrel (built_buildTree _ fs')⟩⟩

/-- A site whose destination goes up out of a directory that is not there yet, back into the
source. -/
def loopSite : FileSystem where
  nodes := [(["w".toList], .directory 0), (["w".toList, "a.html".toList], .file [109] 1),
    (["w".toList, "a.md".toList], .file [111] 2)]
  here := ["w".toList]
  clock := 5

def loopSiteMade : FileSystem where
  nodes := [(["w".toList, "new".toList], .directory 5), (["w".toList], .directory 0),
    (["w".toList, "a.html".toList], .file [109] 1), (["w".toList, "a.md".toList], .file [111] 2)]
  here := ["w".toList]
  clock := 6
  changed := [(["w".toList], 5)]

def loopSiteConfig : Config where
  root := some (.ofString "/w")
  configPath := .ofString "/w/_config.toml"
  source := .ofString "/w"
  destination := .ofString "/w/new/.."
  layouts := .ofString "/w/_layouts"
  includes := .ofString "/w/_includes"

theorem loopSite_wellFormed : loopSite.WellFormed := by decide

theorem loopSite_linkFree : loopSite.LinkFree := by decide

theorem loopSite_load :
    Config.load loopSite ⟨none, .ofString "_config.toml", none, some (.ofString "new/.."),
      .build false⟩ =
      .ok loopSiteConfig := by
  cbv

theorem loopSite_makeAll : loopSite.makeAll loopSiteConfig.destination = (loopSiteMade, none) := by
  cbv

theorem loopSiteMade_files :
    files ((ofConfig loopSiteConfig).collect loopSiteMade).1 =
      [.ofString "a.html", .ofString "a.md"] := by
  have hlisted : ((ofConfig loopSiteConfig).collect loopSiteMade).1 =
      [⟨.ofString "a.html", .file⟩, ⟨.ofString "a.md", .file⟩, ⟨.ofString "new", .directory⟩] :=
    collectIn_of_entries ["w".toList]
      [("a.html".toList, .file [109] 1), ("a.md".toList, .file [111] 2),
        ("new".toList, .directory 5)]
      [[_], [_], [_]] (by cbv) (by cbv) (by cbv)
      (.cons (SourceEntry.under_of_kind (by cbv) (by cbv) (by cbv) rfl) <|
        .cons (SourceEntry.under_of_kind (by cbv) (by cbv) (by cbv) rfl) <|
        .cons (SourceEntry.under_of_directory (by cbv) (by cbv) (by cbv) (by cbv)) .nil)
  rw [hlisted]
  rfl

theorem loopSiteMade_html :
    ((ofConfig loopSiteConfig).buildFile loopSiteMade (.ofString "a.html")).files =
      loopSiteMade := by
  have hext : Name.extension? (Path.ofString "a.html").text = some "html".toList := by decide
  have htransform : (ofConfig loopSiteConfig).transforms.transformFor (.ofString "a.html") =
      .render none := by
    rw [TransformTable.transformFor, hext]
    rfl
  have hfresh : isUpToDate loopSiteMade ((ofConfig loopSiteConfig).source.join (.ofString "a.html"))
      ((ofConfig loopSiteConfig).destinationFor (.ofString "a.html")) = .ok true := by
    rw [destinationFor, htransform]
    cbv
  cases buildFile_files (ofConfig loopSiteConfig) loopSiteMade (.ofString "a.html") with
  | inl h => exact h
  | inr hcase =>
    obtain ⟨h, -⟩ := hcase
    rw [hfresh] at h
    simp at h

theorem loopSite_overwritten :
    ((ofConfig loopSiteConfig).buildTree loopSite).files.read (.ofString "/w/a.html") = .ok [111] ∧
      loopSite.read (.ofString "/w/a.html") = .ok [109] := by
  have hdestination : (ofConfig loopSiteConfig).destination = loopSiteConfig.destination := rfl
  refine ⟨?_, by cbv⟩
  rw [buildTree, hdestination, loopSite_makeAll]
  simp only [loopSiteMade_files, Builder.buildFiles, loopSiteMade_html]
  cbv

theorem loopSite_lists_html : Path.ofString "a.html" ∈
      files ((ofConfig loopSiteConfig).collect loopSite).1 := by
  have hstat : loopSite.stat loopSiteConfig.source = .ok (["w".toList], .directory 0) := by cbv
  have hgrows : loopSite.Grows loopSiteMade := by
    have h : loopSite.Grows (loopSite.makeAll loopSiteConfig.destination).1 :=
      makeAll_grows loopSite_wellFormed rfl
    rwa [loopSite_makeAll] at h
  refine (mem_files_of_grows loopSite_wellFormed loopSite_linkFree
    (.of_stat loopSite_linkFree rfl hstat) hgrows).1 ?_
  rw [loopSiteMade_files]
  exact List.mem_cons_self

/-- So some of its outputs lie on its documents. -/
theorem loopSite_not_apart :
    ¬∀ made, loopSite.makeAll loopSiteConfig.destination = (made, none) →
      (ofConfig loopSiteConfig).Apart made := by
  intro hapart
  have hkept := (sources_kept_iff_apart loopSite_wellFormed loopSite_linkFree loopSite_load).2.2
    hapart loopSite ⟨loopSite_wellFormed, loopSite_linkFree, fun _ => rfl⟩ _ loopSite_lists_html
  have hpath : loopSiteConfig.source.join (.ofString "a.html") = .ofString "/w/a.html" := by cbv
  rw [hpath, loopSite_overwritten.1, loopSite_overwritten.2] at hkept
  exact absurd hkept (by decide)

/-- Not every loaded site without links keeps its sources. -/
theorem sources_not_always_kept :
    ¬∀ (fs : FileSystem) (cli : CommandLine) (c : Config), fs.WellFormed → fs.LinkFree →
      Config.load fs cli = .ok c →
      ∀ rel ∈ files ((ofConfig c).collect fs).1,
        ((ofConfig c).buildTree fs).files.read (c.source.join rel) =
          fs.read (c.source.join rel) := by
  intro h
  have hkept := h _ _ _ loopSite_wellFormed loopSite_linkFree loopSite_load _ loopSite_lists_html
  have hpath : loopSiteConfig.source.join (.ofString "a.html") = .ofString "/w/a.html" := by cbv
  rw [hpath, loopSite_overwritten.1, loopSite_overwritten.2] at hkept
  exact absurd hkept (by decide)

end Builder
end StaticSite
