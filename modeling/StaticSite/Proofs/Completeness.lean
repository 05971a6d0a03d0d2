import Mathlib
import StaticSite.Proofs.Keeping
import StaticSite.Proofs.Passes

/-! What a pass without failures has delivered. Each file then has a file at its output, unless a
directory stood there when its turn came: a directory that is not older than the file counts as its
output. -/
namespace StaticSite

open FileSystem

namespace FileSystem

variable {fs after : FileSystem} {source path : Path}

theorem target_of_copy (h : fs.copy source path none = (after, none)) :
    ∃ q content, fs.target path = .ok q ∧ after = (fs.put q (.file content fs.clock)).tick ∧
      ∀ fault, fs.copy source path (some fault) =
        ((fs.put q (.file (content.take fault.written) fs.clock)).tick, some fault.error) := by
  rw [copy] at h
  split at h
  · simp at h
  next hstat =>
    split at h
    · simp at h
    next q ht =>
      exact ⟨q, _, ht, (Prod.mk.inj h).1.symm, fun fault => by simp [copy, hstat, ht, fill]⟩
  · simp at h

theorem target_of_write {content : Bytes} (h : fs.write path content none = (after, none)) :
    ∃ q, fs.target path = .ok q ∧ after = (fs.put q (.file content fs.clock)).tick ∧
      ∀ fault, fs.write path content (some fault) =
        ((fs.put q (.file (content.take fault.written) fs.clock)).tick, some fault.error) := by
  rw [write] at h
  split at h
  · simp at h
  next q ht => exact ⟨q, ht, (Prod.mk.inj h).1.symm, fun fault => by simp [write, ht, fill]⟩

end FileSystem

namespace Builder

variable {b : Builder} {fs after : FileSystem} {rel : Path} {rels : List Path} {outcome : Outcome}

theorem target_of_perform {action : Action} (hne : action ≠ .skip)
    (h : b.perform fs rel none action = (after, .ok outcome)) :
    ∃ q content, (ensureParent fs (b.destinationFor rel)).1.target (b.destinationFor rel) = .ok q ∧
      after = ((ensureParent fs (b.destinationFor rel)).1.put q
        (.file content (ensureParent fs (b.destinationFor rel)).1.clock)).tick ∧
      ∀ fault, ∃ e, b.perform fs rel (some fault) action =
        (((ensureParent fs (b.destinationFor rel)).1.put q
          (.file (content.take fault.written)
            (ensureParent fs (b.destinationFor rel)).1.clock)).tick, .error e) := by
  have hcopy (h : b.copyFile fs rel none = (after, .ok outcome)) :
      ∃ q content, (ensureParent fs (b.destinationFor rel)).1.target (b.destinationFor rel) =
      .ok q ∧
        after = ((ensureParent fs (b.destinationFor rel)).1.put q
          (.file content (ensureParent fs (b.destinationFor rel)).1.clock)).tick ∧
        ∀ fault, ∃ e, b.copyFile fs rel (some fault) =
          (((ensureParent fs (b.destinationFor rel)).1.put q
            (.file (content.take fault.written)
              (ensureParent fs (b.destinationFor rel)).1.clock)).tick, .error e) := by
    rw [copyFile] at h
    split at h
    · simp at h
    next mid hmid =>
      split at h
      · simp at h
      next done hdone =>
        obtain ⟨rfl, -⟩ := Prod.mk.inj h
        obtain ⟨q, content, ht, hput, hfault⟩ := target_of_copy hdone
        rw [hmid]
        exact ⟨q, content, ht, hput, fun fault =>
          ⟨_, by rw [copyFile, hmid]; simp only [hfault]; rfl⟩⟩
  cases action with
  | skip => exact absurd rfl hne
  | copy | copyVerbatim => exact hcopy h
  | write page =>
    rw [perform, writePage] at h
    split at h
    · simp at h
    next mid hmid =>
      split at h
      · simp at h
      next done hdone =>
        obtain ⟨rfl, -⟩ := Prod.mk.inj h
        obtain ⟨q, ht, hput, hfault⟩ := target_of_write hdone
        rw [hmid]
        exact ⟨q, _, ht, hput, fun fault =>
          ⟨_, by rw [perform, writePage, hmid]; simp only [hfault]; rfl⟩⟩

theorem output_of_buildFile (hwf : fs.WellFormed) (hout : (b.destinationFor rel).isAbsolute)
    (hshown : b.policy.excludesPath rel = false) (h : (b.buildFile fs rel).result = .ok outcome) :
    (isUpToDate fs (b.source.join rel) (b.destinationFor rel) = .ok true ∧
      (b.buildFile fs rel).files = fs) ∨
      (fs.isDirectory (b.destinationFor rel) = false ∧
        (b.buildFile fs rel).files.isFile (b.destinationFor rel)) := by
  cases hplan : b.plan fs rel with
  | error e => simp [buildFile, buildFileFaulty, hplan] at h
  | ok action =>
    by_cases hskip : action = .skip
    · subst hskip
      refine .inl ⟨isUpToDate_of_skip hshown hplan, ?_⟩
      rw [buildFile, buildFileFaulty, hplan]
      rfl
    · have hdone : b.perform fs rel none action = ((b.buildFile fs rel).files, .ok outcome) := by
        rw [← h, buildFile, buildFileFaulty, hplan]
      obtain ⟨q, content, ht, hput, -⟩ := target_of_perform hskip hdone
      have hgrows := ensureParent_grows hwf hout
      refine .inr ⟨?_, ?_⟩
      · by_contra hdir
        obtain ⟨r, t, hs⟩ := isDirectory_iff.1
          (hgrows.keeps.isDirectory hwf hout (by simpa using hdir))
        rw [target, stat_eq_ok.1 hs] at ht
        simp at ht
      · rw [hput]
        exact isFile_put_target hgrows.wellFormed hout ht _ _

theorem isFile_buildFile_iff (hwf : fs.WellFormed) (hout : (b.destinationFor rel).isAbsolute)
    (hshown : b.policy.excludesPath rel = false) (h : (b.buildFile fs rel).result = .ok outcome) :
    (b.buildFile fs rel).files.isFile (b.destinationFor rel) ↔
    fs.isDirectory (b.destinationFor rel) = false := by
  cases output_of_buildFile hwf hout hshown h with
  | inr hbuilt =>
    obtain ⟨hnone, hfile⟩ := hbuilt
    simp [hnone, hfile]
  | inl hfresh =>
    obtain ⟨hfresh, hsame⟩ := hfresh
    obtain ⟨-, -, q, m, -, hs, -⟩ := isUpToDate_iff.1 hfresh
    obtain ⟨-, hlink⟩ := hwf.at?_of_stat hout hs
    rw [hsame, isFile, isDirectory, node?, hs]
    cases m with
    | file | directory => simp [Except.toOption, Node.isFile, Node.isDirectory]
    | link => simp [Node.isLink] at hlink

theorem time_le_of_directory (hwf : fs.WellFormed) (hout : (b.destinationFor rel).isAbsolute)
    (hshown : b.policy.excludesPath rel = false) (h : (b.buildFile fs rel).result = .ok outcome)
    {q : Place} {t : Nat} (hdir : fs.stat (b.destinationFor rel) = .ok (q, .directory t)) :
    ∃ p n, fs.stat (b.source.join rel) = .ok (p, n) ∧
      fs.timeOf p n ≤ fs.timeOf q (.directory t) := by
  cases output_of_buildFile hwf hout hshown h with
  | inr hbuilt =>
    have hnot := isDirectory_iff.2 ⟨q, t, hdir⟩
    simp [hbuilt.1] at hnot
  | inl hfresh =>
    obtain ⟨p, n, r, m, hin, hs, hle⟩ := isUpToDate_iff.1 hfresh.1
    rw [hdir] at hs
    obtain ⟨rfl, rfl⟩ := Prod.mk.inj (Except.ok.inj hs)
    exact ⟨p, n, hin, hle⟩

theorem shown_of_mem_files (hwf : fs.WellFormed) (hs : b.source.isAbsolute)
    (hd : b.destination.isAbsolute) (h : rel ∈ files (b.collect fs).1) :
    b.policy.excludesPath rel = false ∧ (b.destinationFor rel).isAbsolute := by
  obtain ⟨s, t, hstat⟩ := SourceEntry.stat_of_mem_collect (mem_files.1 h)
  obtain ⟨names, n, hne, hvalid, hpath, -, -, hshown⟩ :=
    (SourceEntry.mem_collect_iff hwf hs hstat).1 (mem_files.1 h)
  obtain ⟨dirs, name, rfl⟩ := (List.eq_nil_or_concat' names).resolve_left hne
  obtain ⟨hdirs, hname⟩ := hvalid.of_append
  have hrel : rel = .ofNames (dirs ++ [name]) := hpath
  refine ⟨by rw [hrel]; exact hshown _ (by simp) List.prefix_rfl, ?_⟩
  rw [hrel, destinationFor_ofNames hd hdirs (hname name (by simp))]
  exact Path.isAbsolute_descend hd _

theorem isFile_of_mem_files (hwf : fs.WellFormed) (hs : b.source.isAbsolute)
    (h : rel ∈ files (b.collect fs).1) :
    fs.isFile (b.source.join rel) := by
  have hentry := mem_files.1 h
  obtain ⟨s, t, hstat⟩ := SourceEntry.stat_of_mem_collect hentry
  obtain ⟨names, n, hne, hvalid, hpath, -, hkind, -⟩ :=
    (SourceEntry.mem_collect_iff hwf hs hstat).1 hentry
  have hrel : rel = .ofNames names := hpath
  rw [hrel, Path.join_ofNames _ hne hvalid.plain]
  exact isFile_iff.2 (SourceEntry.kindAt?_eq_file.1 hkind)

theorem buildFiles_keeps_turn {earlier later : List Path} (hwf : fs.WellFormed)
    (hout : ∀ r ∈ earlier ++ rel :: later, (b.destinationFor r).isAbsolute) :
    fs.Keeps (b.buildFiles fs earlier).files ∧
      (b.buildFiles fs earlier).files.Keeps
      (b.buildFile (b.buildFiles fs earlier).files rel).files ∧
        (b.buildFile (b.buildFiles fs earlier).files rel).files.Keeps
        (b.buildFiles fs (earlier ++ rel :: later)).files := by
  have hturn : fs.Keeps (b.buildFiles fs earlier).files := buildFiles_keeps hwf fun r hr =>
    hout r (by simp [hr])
  have hrest := buildFile_keeps hturn.wellFormed (hout rel (by simp))
  refine ⟨hturn, hrest, ?_⟩
  rw [(buildFiles_append b fs earlier (rel :: later)).1, (buildFiles_cons b _ rel later).1]
  exact buildFiles_keeps hrest.wellFormed fun r hr => hout r (by simp [hr])

theorem exists_outcome {earlier later : List Path}
    (h : (BuildReport.ofOutcomes (b.buildFiles fs (earlier ++ rel :: later)).result).failed = 0) :
    ∃ outcome, (b.buildFile (b.buildFiles fs earlier).files rel).result = .ok outcome := by
  rw [BuildReport.failed_eq_zero_iff, (buildFiles_append b fs earlier (rel :: later)).2,
    (buildFiles_cons b _ rel later).2] at h
  cases hresult : (b.buildFile (b.buildFiles fs earlier).files rel).result with
  | ok outcome => exact ⟨outcome, rfl⟩
  | error e => simp [hresult, Except.toOption] at h

/-- After a pass without failures there is a file at the output of a listed file, unless a directory
was there at its turn; that directory was not older than the file. -/
theorem isFile_of_pass_iff {c : Config} {cli : CommandLine} {start before made : FileSystem}
    {report : BuildReport} (hstart : start.WellFormed) (hload : Config.load start cli = .ok c)
    (hwf : before.WellFormed) (hpass : Pass (ofConfig c) before made after rels report)
    (hdone : report.failed = 0) {earlier later : List Path}
    (hrels : rels = earlier ++ rel :: later) :
    (after.isFile ((ofConfig c).destinationFor rel) ↔
      ((ofConfig c).buildFiles made earlier).files.isDirectory ((ofConfig c).destinationFor rel) =
        false) ∧
    ∀ q t, ((ofConfig c).buildFiles made earlier).files.stat ((ofConfig c).destinationFor rel) =
      .ok (q, .directory t) →
      ∃ p n, ((ofConfig c).buildFiles made earlier).files.stat (c.source.join rel) = .ok (p, n) ∧
        ((ofConfig c).buildFiles made earlier).files.timeOf p n ≤
          ((ofConfig c).buildFiles made earlier).files.timeOf q (.directory t) := by
  have hc := Config.loaded_of_load hstart hload
  have hd : c.destination.isAbsolute := hc.destination.isAbsolute
  have hgrows : before.Grows made := grows_of_makeAll hwf hd hpass.makes
  have hshown (r : Path) (hr : r ∈ rels) :=
    shown_of_mem_files (b := ofConfig c) hgrows.wellFormed hc.isAbsolute_source hd
      (hpass.all.mem_iff.1 hr)
  have hleaves := hpass.leaves
  have hreports := hpass.reports
  subst hrels
  obtain ⟨hturn, hnext, hlater⟩ :=
    buildFiles_keeps_turn hgrows.wellFormed fun r hr => (hshown r hr).2
  rw [hleaves] at hlater
  obtain ⟨outcome, hresult⟩ := exists_outcome (hreports ▸ hdone)
  obtain ⟨hrel, hout⟩ := hshown rel (by simp)
  -- A directory stays one to the end of the pass, and so does a file.
  refine ⟨⟨fun hfile => ?_, fun hnone => ?_⟩,
    fun q t => time_le_of_directory hturn.wellFormed hout hrel hresult⟩
  · by_contra hdir
    have hkept := (hnext.trans hlater).isDirectory hturn.wellFormed hout (by simpa using hdir)
    rw [not_isFile_of_isDirectory hkept] at hfile
    exact absurd hfile (by simp)
  · exact hlater.isFile hnext.wellFormed hout
      ((isFile_buildFile_iff hturn.wellFormed hout hrel hresult).2 hnone)

def halfSite : FileSystem where
  nodes := [(["w".toList], .directory 0), (["w".toList, "a".toList], .file [97] 1),
    (["w".toList, "b".toList], .file [98] 1), (["w".toList, "_site".toList], .directory 0),
    (["w".toList, "_site".toList, "a".toList], .directory 5)]
  here := ["w".toList]
  clock := 6

def halfSiteConfig : Config where
  root := some (.ofString "/w")
  configPath := .ofString "/w/_config.toml"
  source := .ofString "/w"
  destination := .ofString "/w/_site"
  layouts := .ofString "/w/_layouts"
  includes := .ofString "/w/_includes"

theorem halfSite_load :
    Config.load halfSite ⟨none, .ofString "_config.toml", none, none,
      .build false⟩ = .ok halfSiteConfig := by
  cbv

theorem halfSite_makeAll : halfSite.makeAll halfSiteConfig.destination = (halfSite, none) := by cbv

theorem halfSite_files :
    files ((ofConfig halfSiteConfig).collect halfSite).1 = [.ofString "a", .ofString "b"] := by
  have hlisted : ((ofConfig halfSiteConfig).collect halfSite).1 =
      [⟨.ofString "a", .file⟩, ⟨.ofString "b", .file⟩] :=
    collectIn_of_entries ["w".toList]
      [("_site".toList, .directory 0), ("a".toList, .file [97] 1), ("b".toList, .file [98] 1)]
      [[], [_], [_]] (by cbv) (by cbv) (by cbv)
      (.cons (SourceEntry.under_of_excluded rfl (by cbv)) <|
        .cons (SourceEntry.under_of_kind (by cbv) (by cbv) (by cbv) rfl) <|
        .cons (SourceEntry.under_of_kind (by cbv) (by cbv) (by cbv) rfl) .nil)
  rw [hlisted]
  rfl

theorem halfSite_buildFiles :
    ((ofConfig halfSiteConfig).buildFiles halfSite [.ofString "a", .ofString "b"]).result =
      [some .skipped, some .copied] := by
  cbv

theorem halfSite_pass :
    Pass (ofConfig halfSiteConfig) halfSite halfSite
      ((ofConfig halfSiteConfig).buildFiles halfSite [.ofString "a", .ofString "b"]).files
      [.ofString "a", .ofString "b"] ⟨0, 1, 1, 0⟩ where
  makes := halfSite_makeAll
  all := halfSite_files ▸ .refl _
  leaves := rfl
  reports := by rw [halfSite_buildFiles]; rfl

/-- The pass does not fail, and the second file has its output. -/
theorem halfSite_second_built :
    ((ofConfig halfSiteConfig).buildFiles halfSite [.ofString "a", .ofString "b"]).files.isFile
      ((ofConfig halfSiteConfig).destinationFor (.ofString "b")) := by
  have hfirst : ((ofConfig halfSiteConfig).buildFiles halfSite [.ofString "a"]).files.isDirectory
      ((ofConfig halfSiteConfig).destinationFor (.ofString "b")) = false := by cbv
  have hturn : [.ofString "a", .ofString "b"] = [.ofString "a"] ++ Path.ofString "b" :: [] := rfl
  exact (isFile_of_pass_iff (by decide) halfSite_load (by decide) halfSite_pass rfl hturn).1.2
    hfirst

/-- Not every listed file has its output after a build without failures. -/
theorem not_always_complete :
    ¬∀ (start before : FileSystem) (cli : CommandLine) (c : Config) (report : BuildReport),
      start.WellFormed →
      Config.load start cli = .ok c → before.WellFormed →
      ((ofConfig c).buildTree before).result = .ok report →
      report.failed = 0 → ∀ rel ∈ files ((ofConfig c).collect before).1,
        ((ofConfig c).buildTree before).files.isFile ((ofConfig c).destinationFor rel) := by
  intro h
  obtain ⟨hfiles, hresult⟩ := buildTree_of_made (b := ofConfig halfSiteConfig) halfSite_makeAll
  rw [halfSite_files] at hfiles hresult
  rw [halfSite_buildFiles] at hresult
  have hbuilt := h halfSite halfSite _ _ _ (by decide) halfSite_load (by decide) hresult rfl
    (.ofString "a") (by rw [halfSite_files]; simp)
  have hnone :
      ((ofConfig halfSiteConfig).buildFiles halfSite [.ofString "a", .ofString "b"]).files.isFile
      ((ofConfig halfSiteConfig).destinationFor (.ofString "a")) = false := by cbv
  rw [hfiles, hnone] at hbuilt
  exact absurd hbuilt (by simp)

end Builder
end StaticSite
