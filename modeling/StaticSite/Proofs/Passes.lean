import StaticSite.Proofs.Isolation

/-! What all passes over a site have in common: the state that they start from, where its
destination may be, how a run over some files is made of shorter ones, and what a report counts. -/
namespace StaticSite

open FileSystem

namespace BuildReport

variable {outcomes outcomes' : List (Option Outcome)}

theorem foldl_record (r : BuildReport) (outcomes : List (Option Outcome)) :
    outcomes.foldl record r =
      ⟨r.transformed + outcomes.count (some .transformed), r.copied + outcomes.count (some .copied),
        r.skipped + outcomes.count (some .skipped), r.failed + outcomes.count none⟩ := by
  induction outcomes generalizing r with
  | nil => rfl
  | cons outcome outcomes ih =>
    rw [List.foldl_cons, ih]
    cases outcome with
    | none => simp [record, Nat.add_assoc, Nat.add_comm 1]
    | some outcome => cases outcome <;> simp [record, Nat.add_assoc, Nat.add_comm 1]

theorem ofOutcomes_eq (outcomes : List (Option Outcome)) :
    ofOutcomes outcomes = ⟨outcomes.count (some .transformed), outcomes.count (some .copied),
      outcomes.count (some .skipped), outcomes.count none⟩ := by
  rw [ofOutcomes, foldl_record]
  simp

def total (r : BuildReport) : Nat := r.transformed + r.copied + r.skipped + r.failed

theorem total_record (r : BuildReport) (outcome : Option Outcome) :
    (r.record outcome).total = r.total + 1 := by
  rcases outcome with - | (- | - | -) <;> simp only [record, total] <;> omega

theorem total_ofOutcomes (outcomes : List (Option Outcome)) :
    (ofOutcomes outcomes).total = outcomes.length := by
  have hrun (r : BuildReport) : (outcomes.foldl record r).total = r.total + outcomes.length := by
    induction outcomes generalizing r with
    | nil => rfl
    | cons outcome outcomes ih =>
      rw [List.foldl_cons, ih, total_record, List.length_cons]
      omega
  have hstart : total {} = 0 := rfl
  rw [ofOutcomes, hrun, hstart, Nat.zero_add]

theorem ofOutcomes_perm (h : outcomes.Perm outcomes') :
    ofOutcomes outcomes = ofOutcomes outcomes' := by
  rw [ofOutcomes_eq, ofOutcomes_eq, h.count_eq, h.count_eq, h.count_eq, h.count_eq]

theorem failed_eq_zero_iff : (ofOutcomes outcomes).failed = 0 ↔ none ∉ outcomes := by
  rw [ofOutcomes_eq]
  exact List.count_eq_zero

theorem ofOutcomes_of_idle (h : ∀ o ∈ outcomes, o = some .skipped ∨ o = none) :
    (ofOutcomes outcomes).transformed = 0 ∧ (ofOutcomes outcomes).copied = 0 ∧
      (ofOutcomes outcomes).skipped + (ofOutcomes outcomes).failed = outcomes.length := by
  have hnone {done : Outcome} (hdone : done ≠ .skipped) : outcomes.count (some done) = 0 := by
    refine List.count_eq_zero.2 fun hmem => ?_
    cases h _ hmem with
    | inl he => exact hdone (Option.some.inj he)
    | inr he => simp at he
  have hbuilt : outcomes.count (some .transformed) = 0 := hnone (by simp)
  have hcopied : outcomes.count (some .copied) = 0 := hnone (by simp)
  have htotal := total_ofOutcomes outcomes
  rw [ofOutcomes_eq, total] at htotal
  rw [ofOutcomes_eq]
  refine ⟨hbuilt, hcopied, ?_⟩
  simpa only [hbuilt, hcopied, Nat.zero_add] using htotal

end BuildReport

namespace Builder

variable {b : Builder} {fs : FileSystem} {rel : Path} {rels : List Path}

/-! ### Runs -/

theorem buildFiles_cons (b : Builder) (fs : FileSystem) (rel : Path) (rels : List Path) :
    (b.buildFiles fs (rel :: rels)).files = (b.buildFiles (b.buildFile fs rel).files rels).files ∧
      (b.buildFiles fs (rel :: rels)).result =
        (b.buildFile fs rel).result.toOption ::
          (b.buildFiles (b.buildFile fs rel).files rels).result := by
  refine ⟨rfl, ?_⟩
  rw [buildFiles]
  cases (b.buildFile fs rel).result <;> rfl

theorem buildFiles_append (b : Builder) (fs : FileSystem) (rels more : List Path) :
    (b.buildFiles fs (rels ++ more)).files =
      (b.buildFiles (b.buildFiles fs rels).files more).files ∧
      (b.buildFiles fs (rels ++ more)).result =
        (b.buildFiles fs rels).result ++
          (b.buildFiles (b.buildFiles fs rels).files more).result := by
  induction rels generalizing fs with
  | nil => exact ⟨rfl, rfl⟩
  | cons rel rels ih =>
    obtain ⟨hfiles, hresult⟩ := ih (b.buildFile fs rel).files
    rw [List.cons_append, (buildFiles_cons b fs rel (rels ++ more)).1,
      (buildFiles_cons b fs rel (rels ++ more)).2, (buildFiles_cons b fs rel rels).1,
      (buildFiles_cons b fs rel rels).2, hfiles, hresult]
    exact ⟨rfl, rfl⟩

theorem length_buildFiles (b : Builder) (fs : FileSystem) (rels : List Path) :
    (b.buildFiles fs rels).result.length = rels.length := by
  induction rels generalizing fs with
  | nil => rfl
  | cons rel rels ih =>
    rw [(buildFiles_cons b fs rel rels).2, List.length_cons, ih, List.length_cons]

theorem buildTree_of_made {before : FileSystem} (h : before.makeAll b.destination = (fs, none)) :
    (b.buildTree before).files = (b.buildFiles fs (files (b.collect fs).1)).files ∧
      (b.buildTree before).result = .ok
      (.ofOutcomes (b.buildFiles fs (files (b.collect fs).1)).result) := by
  rw [buildTree, h]
  exact ⟨rfl, rfl⟩

/-- A pass over the tree: the destination is made, and the files that are listed then are built, in
any order. -/
structure Pass (b : Builder) (before made after : FileSystem) (rels : List Path)
    (report : BuildReport) : Prop where
  makes : before.makeAll b.destination = (made, none)
  all : rels.Perm (files (b.collect made).1)
  leaves : (b.buildFiles made rels).files = after
  reports : BuildReport.ofOutcomes (b.buildFiles made rels).result = report

theorem pass_of_buildTree {before : FileSystem} {report : BuildReport}
    (h : (b.buildTree before).result = .ok report) :
    ∃ made, Pass b before made (b.buildTree before).files (files (b.collect made).1) report := by
  cases hmake : before.makeAll b.destination with
  | mk made e =>
    cases e with
    | some e => simp [buildTree, hmake] at h
    | none =>
      obtain ⟨hfiles, hresult⟩ := buildTree_of_made hmake
      rw [hresult, Except.ok.injEq] at h
      exact ⟨made, hmake, .refl _, hfiles.symm, h⟩

/-- What a build of the tree may leave, in whatever order it builds the files. -/
inductive Built (b : Builder) (before after : FileSystem) : Prop
  | refused (e : IoError) (makes : before.makeAll b.destination = (after, some e))
  | passed (made : FileSystem) (rels : List Path) (report : BuildReport)
      (pass : Pass b before made after rels report)

theorem built_buildTree (b : Builder) (before : FileSystem) :
    Built b before (b.buildTree before).files := by
  cases hmake : before.makeAll b.destination with
  | mk made e =>
    cases e with
    | some e => exact .refused e (by rw [hmake, buildTree, hmake])
    | none =>
      obtain ⟨made, hpass⟩ := pass_of_buildTree (buildTree_of_made hmake).2
      exact .passed made _ _ hpass

/-! ### The prepared site -/

theorem leads_source (hlf : fs.LinkFree) (hs : b.source.isAbsolute)
    (h : rel ∈ files (b.collect fs).1) :
    fs.Leads b.source b.source.place := by
  obtain ⟨s, t, hstat⟩ := SourceEntry.stat_of_mem_collect (mem_files.1 h)
  have hleads := Leads.of_stat hlf (Path.isAbsolute_join_left hs) hstat
  have hsource : fs.Leads b.source s := by
    obtain ⟨t, ht⟩ := hleads.route
    rw [Path.steps_join hs rfl] at ht
    exact ⟨hs, t, by simpa [Path.steps, Text.splitBy] using ht⟩
  rwa [hsource.place_eq]

theorem place_destinationFor (hd : b.destination.isAbsolute) {dirs : List Text} {name : Text}
    (hdirs : ValidNames dirs) (hname : ValidName name) :
    (b.destinationFor (.ofNames (dirs ++ [name]))).place =
      Path.follow (b.destination.place ++ dirs) (b.outputName dirs name) := by
  have ho : Path.Plain (b.outputName dirs name) := plain_outputName hname
  rw [destinationFor_ofNames hd hdirs hname, Path.place_descend hd, List.foldl_append,
    Path.foldl_follow_valid _ hdirs]
  · rfl
  · exact fun n hn => (List.mem_append.1 hn).elim (hdirs.plain n) (ho.singleton n)

/-- A sound state without links in which the destination is there. -/
structure Prepared (b : Builder) (fs : FileSystem) : Prop where
  wellFormed : fs.WellFormed
  linkFree : fs.LinkFree
  source : b.source.isAbsolute
  includes : b.pages.includes.isAbsolute
  layouts : b.pages.layouts.isAbsolute
  destination : fs.Leads b.destination b.destination.place

theorem prepared_of_load {c : Config} {cli : CommandLine} {start before : FileSystem}
    (hstart : start.WellFormed) (hload : Config.load start cli = .ok c) (hwf : before.WellFormed)
    (hlf : before.LinkFree) (hmade : before.makeAll c.destination = (fs, none)) :
    Prepared (ofConfig c) fs := by
  have hc := Config.loaded_of_load hstart hload
  have hd : c.destination.isAbsolute := hc.destination.isAbsolute
  have hgrows : before.Grows fs := grows_of_makeAll hwf hd hmade
  obtain ⟨d, hdest⟩ := leads_of_makeAll hwf hlf hd hmade
  have hplace : (ofConfig c).destination.place = d := hdest.place_eq
  refine ⟨hgrows.wellFormed, hgrows.linkFree hlf, hc.isAbsolute_source, hc.includes.isAbsolute,
    hc.layouts.isAbsolute, ?_⟩
  rw [hplace]
  exact hdest

/-- That the destination is apart from what is read. It and the source are apart, or the walk
through the source does not come to it, and no include or layout is looked up in it. -/
structure Detached (b : Builder) (fs : FileSystem) : Prop where
  destination : (¬b.source.place <+: b.destination.place ∧
    ¬b.destination.place <+: b.source.place) ∨
    b.source.place <+: b.destination.place ∧
      ∀ e ∈ (b.collect fs).1, ¬b.destination.place <+: (b.source.join e.path).place
  reads : ∀ rel ∈ files (b.collect fs).1, ∀ p ∈ b.reads fs rel, ∀ q ∈ fs.visited [] (lookupNames p),
    b.destination.place <+: q → q = b.destination.place

theorem not_below_of_apart (hs : b.source.isAbsolute)
    (happart : (¬b.source.place <+: b.destination.place ∧ ¬b.destination.place <+: b.source.place) ∨
      b.source.place <+: b.destination.place ∧
        ∀ e ∈ (b.collect fs).1, ¬b.destination.place <+: (b.source.join e.path).place)
    {names : List Text} (hlisted : Listed b fs b.source.place names)
    (hrel : .ofNames names ∈ files (b.collect fs).1) :
    ¬b.destination.place <+: b.source.place ++ names := by
  intro hpre
  cases happart with
  | inl hcase =>
    obtain ⟨hsd, hds⟩ := hcase
    exact (List.prefix_or_prefix_of_prefix hpre (List.prefix_append _ names)).elim hds hsd
  | inr hcase =>
    obtain ⟨-, hhidden⟩ := hcase
    refine hhidden _ (mem_files.1 hrel) ?_
    rw [Path.place_join hs hlisted.ne_nil hlisted.valid]
    exact hpre

theorem Prepared.not_below (h : Prepared b fs) (hdetached : b.Detached fs) {names : List Text}
    (hlisted : Listed b fs b.source.place names) (hrel : .ofNames names ∈ files (b.collect fs).1) :
    ¬b.destination.place <+: b.source.place ++ names :=
  not_below_of_apart h.source hdetached.destination hlisted hrel

end Builder
end StaticSite
