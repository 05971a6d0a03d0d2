import StaticSite.Proofs.Settling
import StaticSite.Proofs.Order
import StaticSite.Build.Job

/-! Builds reach a fixpoint. After one pass over a site every file is settled, and no new file has
come among those that are listed; so whatever is built then, in whatever order and however often,
changes nothing and is counted as skipped or failed. -/
namespace StaticSite

open FileSystem

namespace Builder

variable {b : Builder} {fs made cur after : FileSystem} {names : List Text} {rel : Path}
  {rels : List Path} {since : Nat} {report : BuildReport}

/-! ### The list of files -/

theorem Steady.not_below (h : Steady b since made) (hrel : rel ∈ files (b.collect made).1)
    (hvalid : ValidNames names) (hadmitted : Admitted b.source names)
    (hshown : ∀ a, a ≠ [] → a <+: names → b.policy.excludesPath (.ofNames a) = false) :
    ¬b.destination.place <+: b.source.place ++ names := by
  intro hpre
  cases h.detached.destination with
  | inl hcase =>
    obtain ⟨hsd, hds⟩ := hcase
    exact (List.prefix_or_prefix_of_prefix hpre (List.prefix_append _ names)).elim hds hsd
  | inr hcase =>
    obtain ⟨hinside, hhidden⟩ := hcase
    obtain ⟨dirs, hdirs⟩ := hinside
    rw [← hdirs, List.prefix_append_right_inj] at hpre
    obtain ⟨more, rfl⟩ := hpre
    obtain ⟨hvalid', -⟩ := hvalid.of_append
    by_cases hne : dirs = []
    · -- The destination is the source itself: then the listed file is in it.
      subst hne
      obtain ⟨rdirs, name, hf⟩ := h.exists_listedFile hrel
      refine hf.clear ?_
      rw [← hdirs, List.append_nil]
      exact List.prefix_append _ _
    · -- The destination is a directory that the walk lists.
      obtain ⟨t, ht⟩ := h.destination.at? h.wellFormed
      rw [← hdirs] at ht
      have hmem := mem_collect_of_directory h.wellFormed h.linkFree
        (leads_source h.linkFree h.source hrel) hne hvalid'
        (hadmitted.of_append h.source hvalid) ht fun a ha hpre =>
          hshown a ha (hpre.trans (List.prefix_append _ _))
      refine hhidden _ hmem ?_
      rw [Path.place_join h.source hne hvalid', hdirs]

theorem Steady.mem_files_iff (h : Steady b since made) (hsome : files (b.collect made).1 ≠ [])
    (hcur : Later b.destination.place since made cur) :
    rel ∈ files (b.collect cur).1 ↔ rel ∈ files (b.collect made).1 := by
  obtain ⟨first, hfirst⟩ := List.exists_mem_of_ne_nil _ hsome
  have hs := leads_source h.linkFree h.source hfirst
  have hs' := hs.mono h.wellFormed hcur.directory
  rw [Builder.mem_files_iff hcur.wellFormed hcur.linkFree hs',
    Builder.mem_files_iff h.wellFormed h.linkFree hs]
  have hsame (names : List Text) (hlisted : Listed b made b.source.place names ∨
      Listed b cur b.source.place names) :
      cur.at? (b.source.place ++ names) = made.at? (b.source.place ++ names) := by
    refine hcur.outside _ fun hpre => absurd hpre ?_
    cases hlisted with
    | inl hl => exact h.not_below hfirst hl.valid hl.admitted hl.shown
    | inr hl => exact h.not_below hfirst hl.valid hl.admitted hl.shown
  constructor
  · intro hex
    obtain ⟨names, hrel, hlisted⟩ := hex
    exact ⟨names, hrel, hlisted.of_file (hsame names (.inr hlisted) ▸ hlisted.file)⟩
  · intro hex
    obtain ⟨names, hrel, hlisted⟩ := hex
    exact ⟨names, hrel, hlisted.of_file (hsame names (.inl hlisted) ▸ hlisted.file)⟩

/-! ### At rest -/

theorem buildFiles_of_idle (h : ∀ rel ∈ rels, Idle b fs rel) :
    (b.buildFiles fs rels).files = fs ∧ ∀ o ∈ (b.buildFiles fs rels).result, o = some .skipped ∨
    o = none := by
  induction rels with
  | nil => exact ⟨rfl, by simp [Builder.buildFiles]⟩
  | cons rel rels ih =>
    obtain ⟨hfiles, hresult⟩ := h rel List.mem_cons_self
    obtain ⟨hrest, hall⟩ := ih fun r hr => h r (List.mem_cons_of_mem _ hr)
    rw [(buildFiles_cons b fs rel rels).1, (buildFiles_cons b fs rel rels).2, hfiles]
    exact ⟨hrest, List.forall_mem_cons.2 ⟨hresult, hall⟩⟩

/-- A state that no build changes: the destination is there, and nothing comes of any listed
file. -/
structure Resting (b : Builder) (fs : FileSystem) : Prop where
  made : fs.makeAll b.destination = (fs, none)
  idle : ∀ rel ∈ files (b.collect fs).1, Idle b fs rel

theorem Resting.pass (h : Resting b fs) (hpass : Pass b fs made after rels report) :
    after = fs ∧ report.transformed = 0 ∧ report.copied = 0 ∧
      report.skipped + report.failed = (files (b.collect fs).1).length := by
  obtain ⟨hmakes, hall, hleaves, hreports⟩ := hpass
  obtain ⟨rfl, -⟩ := Prod.mk.inj (h.made.symm.trans hmakes)
  have hrels : ∀ rel ∈ rels, Idle b fs rel := fun rel hrel => h.idle rel (hall.mem_iff.1 hrel)
  obtain ⟨hfiles, hidle⟩ := buildFiles_of_idle hrels
  obtain ⟨htransformed, hcopied, hcount⟩ := BuildReport.ofOutcomes_of_idle hidle
  rw [hreports] at htransformed hcopied hcount
  exact ⟨hleaves.symm.trans hfiles, htransformed, hcopied,
    hcount.trans ((length_buildFiles b fs rels).trans hall.length_eq)⟩

theorem Resting.run (h : Resting b fs) {job : BuildJob}
    (hjob : ∀ rel, job = .file rel → rel ∈ files (b.collect fs).1) :
    (job.run b fs).1 = fs := by
  cases job with
  | full =>
    have hfiles : (b.buildTree fs).files = fs := by
      rw [(buildTree_of_made h.made).1]
      exact (buildFiles_of_idle h.idle).1
    rw [BuildJob.run]
    cases (b.buildTree fs).result <;> exact hfiles
  | file rel =>
    have hfiles := (h.idle rel (hjob rel rfl)).files
    rw [BuildJob.run]
    cases (b.buildFile fs rel).result with
    | error e => exact hfiles
    | ok outcome => cases outcome <;> exact hfiles

theorem Resting.runAll (h : Resting b fs) {jobs : List BuildJob}
    (hjobs : ∀ rel, BuildJob.file rel ∈ jobs → rel ∈ files (b.collect fs).1) :
    (BuildJob.runAll b fs jobs).1 = fs := by
  induction jobs with
  | nil => rfl
  | cons job jobs ih =>
    have hfirst : (job.run b fs).1 = fs := h.run fun rel hrel =>
      hjobs rel (hrel ▸ List.mem_cons_self)
    rw [BuildJob.runAll]
    simp only [hfirst]
    exact ih fun rel hrel => hjobs rel (List.mem_cons_of_mem _ hrel)

theorem Steady.resting (h : Steady b since made) {before : FileSystem}
    (hpass : Pass b before made after rels report) :
    Resting b after ∧ ∀ rel, rel ∈ files (b.collect after).1 ↔ rel ∈ files (b.collect made).1 := by
  obtain ⟨hlater, hsettled⟩ :=
    h.buildFiles (fun rel hrel => hpass.all.mem_iff.1 hrel) (.refl h.wellFormed h.linkFree)
  rw [hpass.leaves] at hlater hsettled
  have hsame (rel : Path) : rel ∈ files (b.collect after).1 ↔ rel ∈ files (b.collect made).1 := by
    by_cases hsome : files (b.collect made).1 = []
    · have hnil : rels = [] := List.perm_nil.1 (hsome ▸ hpass.all)
      have hafter : after = made := by
        rw [← hpass.leaves, hnil]
        rfl
      rw [hafter]
    · exact h.mem_files_iff hsome hlater
  refine ⟨⟨?_, fun rel hrel => ?_⟩, hsame⟩
  · exact makeDirectories_of_leads hlater.linkFree
      (h.destination.mono h.wellFormed hlater.directory)
      (textRefusal?_of_makeAll h.destination.absolute hpass.makes) _
  · have hmem := (hsame rel).1 hrel
    exact (hsettled rel (hpass.all.mem_iff.2 hmem)).idle h hmem hlater

/-- After a pass over a loaded site whose files are not newer than the clock, no job changes
anything, and each further pass reports as many skipped and failed files as there are files. -/
theorem fixpoint_of_pass {c : Config} {cli : CommandLine} {start before : FileSystem}
    (hstart : start.WellFormed) (hload : Config.load start cli = .ok c) (hwf : before.WellFormed)
    (hlf : before.LinkFree) (hpass : Pass (ofConfig c) before made after rels report)
    (hdetached : (ofConfig c).Detached made)
    (htime : ∀ rel ∈ files ((ofConfig c).collect made).1, ∀ q n,
      made.stat (c.source.join rel) = .ok (q, n) → n.time ≤ before.clock) :
    (∀ jobs, (∀ rel, BuildJob.file rel ∈ jobs → rel ∈ files ((ofConfig c).collect made).1) →
      (BuildJob.runAll (ofConfig c) after jobs).1 = after) ∧
    (∃ report', ((ofConfig c).buildTree after).result = .ok report') ∧
    ∀ made' after' rels' report', Pass (ofConfig c) after made' after' rels' report' →
      after' = after ∧ report'.transformed = 0 ∧ report'.copied = 0 ∧
        report'.skipped + report'.failed = (files ((ofConfig c).collect made).1).length := by
  have hd : c.destination.isAbsolute := (Config.loaded_of_load hstart hload).destination.isAbsolute
  have hsteady : Steady (ofConfig c) before.clock made :=
    { toPrepared := prepared_of_load hstart hload hwf hlf hpass.makes
      detached := hdetached
      since_le := (grows_of_makeAll hwf hd hpass.makes).clock
      time := htime }
  obtain ⟨hrest, hsame⟩ := hsteady.resting hpass
  obtain ⟨hlater, -⟩ :=
    hsteady.buildFiles (fun rel hrel => hpass.all.mem_iff.1 hrel)
      (.refl hsteady.wellFormed hsteady.linkFree)
  rw [hpass.leaves] at hlater
  have hcount : (files ((ofConfig c).collect after).1).Perm (files ((ofConfig c).collect made).1) :=
    (List.perm_ext_iff_of_nodup (nodup_files hlater.wellFormed hsteady.source)
      (nodup_files hsteady.wellFormed hsteady.source)).2 hsame
  refine ⟨fun jobs hjobs => hrest.runAll fun rel hrel => (hsame rel).2 (hjobs rel hrel),
    ⟨_, (buildTree_of_made hrest.made).2⟩, fun made' after' rels' report' hpass' => ?_⟩
  obtain ⟨hafter, htransformed, hcopied, hidle⟩ := hrest.pass hpass'
  exact ⟨hafter, htransformed, hcopied, hidle.trans hcount.length_eq⟩

theorem notesSite_pass :
    Pass (ofConfig notesSiteConfig) notesSite notesSiteMade
    ((ofConfig notesSiteConfig).buildTree notesSite).files
      (files ((ofConfig notesSiteConfig).collect notesSiteMade).1)
      (.ofOutcomes ((ofConfig notesSiteConfig).buildFiles notesSiteMade
        (files ((ofConfig notesSiteConfig).collect notesSiteMade).1)).result) where
  makes := notesSite_makeAll
  all := .refl _
  leaves := (buildTree_of_made notesSite_makeAll).1.symm
  reports := rfl

theorem notesSiteMade_time {path : Path} (hp : path.isAbsolute) {q : Place} {n : Node}
    (h : notesSiteMade.stat path = .ok (q, n)) : n.time ≤ notesSite.clock := by
  have hwf : notesSiteMade.WellFormed := by decide
  have hat := (hwf.at?_of_stat hp h).1
  by_cases hq : q = []
  · subst hq
    rw [at?_nil, Option.some.injEq] at hat
    subst hat
    decide
  · have hall : ∀ e ∈ notesSiteMade.nodes, e.2.time ≤ notesSite.clock := by decide
    exact hall _ (mem_nodes_of_at? hq hat)

/-- Jobs of all kinds leave the site of a page and a note as its build has left it. -/
theorem notesSite_settles :
    (BuildJob.runAll (ofConfig notesSiteConfig)
      ((ofConfig notesSiteConfig).buildTree notesSite).files
      [.file (.ofString "b"), .full, .file (.ofString "a.html")]).1 =
        ((ofConfig notesSiteConfig).buildTree notesSite).files := by
  refine (fixpoint_of_pass (by decide) notesSite_load (by decide) (by decide) notesSite_pass
    notesSiteMade_separate.detached fun rel _ q n hstat =>
      notesSiteMade_time (Path.isAbsolute_join_left rfl) hstat).1 _ ?_
  intro rel hrel
  rw [notesSiteMade_files]
  simp only [List.mem_cons, BuildJob.file.injEq, reduceCtorEq, List.not_mem_nil, or_false,
    false_or] at hrel ⊢
  exact hrel.symm

end Builder
end StaticSite
