import StaticSite.Proofs.Completeness
import StaticSite.Proofs.Order

/-! Writes that stop with an error. The output is emptied and stamped before anything is written to
it, so a write that stops leaves a start of the output, and leaves it as new as a whole one. The
next build asks for nothing but its time. -/
namespace StaticSite.Builder

open FileSystem

variable {b : Builder} {fs : FileSystem} {rel : Path} {fault : Fault} {outcome : Outcome}
  {e : BuildError}

theorem perform_ne_skipped {fault : Option Fault} {action : Action} (hne : action ≠ .skip) :
    (b.perform fs rel fault action).2 ≠ .ok .skipped := by
  cases action with
  | skip => exact absurd rfl hne
  | copy | copyVerbatim =>
    rw [perform, copyFile]
    split
    · simp
    · split <;> simp
  | write page =>
    rw [perform, writePage]
    split
    · simp
    · split <;> simp

theorem buildFile_of_plan_skip (h : b.plan fs rel = .ok .skip) :
    b.buildFile fs rel = ⟨fs, [], .ok .skipped⟩ := by
  rw [buildFile, buildFileFaulty, h]
  rfl

theorem result_eq_skipped_iff : (b.buildFile fs rel).result = .ok .skipped ↔
    b.plan fs rel = .ok .skip := by
  constructor
  · intro h
    cases hplan : b.plan fs rel with
    | error e => simp [buildFile, buildFileFaulty, hplan] at h
    | ok action =>
      by_cases hskip : action = .skip
      · rw [hskip]
      · rw [buildFile, buildFileFaulty, hplan] at h
        exact absurd h (perform_ne_skipped hskip)
  · intro h
    rw [buildFile_of_plan_skip h]

theorem exists_part_of_fault (hwf : fs.WellFormed) (hout : (b.destinationFor rel).isAbsolute)
    (hwhole : (b.buildFile fs rel).result = .ok outcome)
    (hfault : (b.buildFileFaulty fs rel (some fault)).result = .error e) :
    ∃ mid q whole, fs.Grows mid ∧ mid.target (b.destinationFor rel) = .ok q ∧
      (b.buildFile fs rel).files = (mid.put q (.file whole mid.clock)).tick ∧
      (b.buildFileFaulty fs rel (some fault)).files =
        (mid.put q (.file (whole.take fault.written) mid.clock)).tick ∧
      isUpToDate fs (b.source.join rel) (b.destinationFor rel) = .ok false := by
  cases hplan : b.plan fs rel with
  | error e' => simp [buildFile, buildFileFaulty, hplan] at hwhole
  | ok action =>
    have hne : action ≠ .skip := by
      intro hskip
      simp [buildFileFaulty, hplan, hskip, perform] at hfault
    have hdone : b.perform fs rel none action = ((b.buildFile fs rel).files, .ok outcome) := by
      rw [← hwhole, buildFile, buildFileFaulty, hplan]
    obtain ⟨q, whole, ht, hput, hstopped⟩ := target_of_perform hne hdone
    obtain ⟨e', hpart⟩ := hstopped fault
    refine ⟨_, q, whole, ensureParent_grows hwf hout, ht, hput, ?_, isUpToDate_of_plan hplan hne⟩
    rw [buildFileFaulty, hplan]
    simp only [hpart]

theorem stat_source_of_put {mid : FileSystem} {p q : Place} {n : Node} (hwf : fs.WellFormed)
    (hin : (b.source.join rel).isAbsolute) (hout : (b.destinationFor rel).isAbsolute)
    (hgrows : fs.Grows mid) (ht : mid.target (b.destinationFor rel) = .ok q)
    (hs : fs.stat (b.source.join rel) = .ok (p, n)) (content : Bytes) :
    ∃ m, (mid.put q (.file content mid.clock)).tick.stat (b.source.join rel) = .ok (p, m) ∧
      if p = q then m = .file content mid.clock else m = n := by
  have hkeeps := keeps_put hgrows.wellFormed hout ht content mid.clock
  obtain ⟨m, hm, -⟩ := (hgrows.keeps.trans hkeeps).stat hwf hin hs
  obtain ⟨⟨r, name, u, hq, -⟩, -⟩ := hgrows.wellFormed.of_target hout ht
  have hat := (hkeeps.wellFormed.at?_of_stat hin hm).1
  rw [at?_tick] at hat
  refine ⟨m, hm, ?_⟩
  by_cases hpq : p = q
  · have hne : q ≠ [] := by simp [hq]
    rw [if_pos hpq]
    rw [hpq, at?_put_self mid hne, Option.some.injEq] at hat
    exact hat.symm
  · rw [if_neg hpq]
    rw [at?_put_of_ne mid _ hpq, hgrows.at?_of_some (hwf.at?_of_stat hin hs).1,
      Option.some.injEq] at hat
    exact hat.symm

/-- A write that stops leaves a start of the output of a listed file, and the time of the write. The
next build takes it for the output, unless the file is from after that time. -/
theorem skipped_after_fault_iff {c : Config} {cli : CommandLine} {start : FileSystem}
    (hstart : start.WellFormed) (hload : Config.load start cli = .ok c) (hwf : fs.WellFormed)
    (hrel : rel ∈ files ((ofConfig c).collect fs).1)
    (hwhole : ((ofConfig c).buildFile fs rel).result = .ok outcome)
    (hfault : ((ofConfig c).buildFileFaulty fs rel (some fault)).result = .error e) :
    ∃ p n q whole t, fs.stat (c.source.join rel) = .ok (p, n) ∧ fs.clock ≤ t ∧
      ((ofConfig c).buildFile fs rel).files.stat ((ofConfig c).destinationFor rel) =
        .ok (q, .file whole t) ∧
      ((ofConfig c).buildFileFaulty fs rel (some fault)).files.stat
      ((ofConfig c).destinationFor rel) =
        .ok (q, .file (whole.take fault.written) t) ∧
      (((ofConfig c).buildFile ((ofConfig c).buildFileFaulty fs rel (some fault)).files
        rel).result = .ok .skipped ↔
        n.time ≤ t ∨ p = q) ∧
      (n.time ≤ fs.clock → (ofConfig c).buildFile
        ((ofConfig c).buildFileFaulty fs rel (some fault)).files rel =
        ⟨((ofConfig c).buildFileFaulty fs rel (some fault)).files, [], .ok .skipped⟩) := by
  have hc := Config.loaded_of_load hstart hload
  have hin : (c.source.join rel).isAbsolute := Path.isAbsolute_join_left hc.isAbsolute_source
  obtain ⟨hshown, hout⟩ :=
    shown_of_mem_files (b := ofConfig c) hwf hc.isAbsolute_source hc.destination.isAbsolute hrel
  obtain ⟨mid, q, whole, hgrows, ht, hfiles, hpart, hstale⟩ :=
    exists_part_of_fault hwf hout hwhole hfault
  obtain ⟨p, content, u, hs⟩ : ∃ p content u, fs.stat (c.source.join rel) =
    .ok (p, .file content u) :=
    isFile_iff.1 (isFile_of_mem_files (b := ofConfig c) hwf hc.isAbsolute_source hrel)
  obtain ⟨m, hm, hcase⟩ := stat_source_of_put (b := ofConfig c) hwf hin hout hgrows ht hs
    (whole.take fault.written)
  have hmade := stat_put_target hgrows.wellFormed hout ht (whole.take fault.written) mid.clock
  -- Only where the output lies on the document itself has the write changed its time.
  have htime (next : FileSystem) : next.timeOf p m ≤ mid.clock ↔ u ≤ mid.clock ∨ p = q := by
    split at hcase
    next hpq => simp [hpq, hcase, timeOf, Node.time]
    next hpq => simp [hpq, hcase, timeOf, Node.time]
  have hplan : (ofConfig c).plan ((ofConfig c).buildFileFaulty fs rel (some fault)).files rel =
      .ok .skip ↔
      u ≤ mid.clock ∨ p = q := by
    rw [hpart, ← htime (mid.put q (.file (whole.take fault.written) mid.clock)).tick]
    constructor
    · intro hskip
      obtain ⟨p', n', q', m', hs', hs'', hle⟩ := isUpToDate_iff.1 (isUpToDate_of_skip hshown hskip)
      obtain ⟨rfl, rfl⟩ := Prod.mk.inj (Except.ok.inj (hm.symm.trans hs'))
      obtain ⟨-, rfl⟩ := Prod.mk.inj (Except.ok.inj (hmade.symm.trans hs''))
      exact hle
    · intro hle
      exact plan_of_isUpToDate (isUpToDate_iff.2 ⟨p, m, q, _, hm, hmade, hle⟩)
  refine ⟨p, _, q, whole, mid.clock, hs, hgrows.clock, ?_, ?_, ?_, fun hle => ?_⟩
  · rw [hfiles]
    exact stat_put_target hgrows.wellFormed hout ht whole mid.clock
  · rw [hpart]
    exact hmade
  · rw [result_eq_skipped_iff, hplan, Node.time]
  · exact buildFile_of_plan_skip (hplan.2 (.inl (hle.trans hgrows.clock)))

theorem notesSite_fault :
    ((ofConfig notesSiteConfig).buildFile notesSiteMade (.ofString "b")).result = .ok .copied ∧
      ∃ e, ((ofConfig notesSiteConfig).buildFileFaulty notesSiteMade (.ofString "b")
        (some ⟨0, .noSpace⟩)).result =
        .error e := by
  exact ⟨by cbv, _, by cbv⟩

/-- The empty output is taken for the output of that file. -/
theorem notesSite_part_skipped :
    ((ofConfig notesSiteConfig).buildFile
      ((ofConfig notesSiteConfig).buildFileFaulty notesSiteMade (.ofString "b")
        (some ⟨0, .noSpace⟩)).files
        (.ofString "b")).result = .ok .skipped := by
  obtain ⟨hwhole, e, hfault⟩ := notesSite_fault
  obtain ⟨p, n, q, whole, t, hs, -, -, -, -, hnext⟩ := skipped_after_fault_iff (by decide)
    notesSite_load (by decide) (by rw [notesSiteMade_files]; simp) hwhole hfault
  have hstat : notesSiteMade.stat (notesSiteConfig.source.join (.ofString "b")) =
      .ok (["w".toList, "b".toList], .file [98] 2) := by cbv
  obtain ⟨-, rfl⟩ := Prod.mk.inj (Except.ok.inj (hs.symm.trans hstat))
  rw [hnext (by decide)]

/-- The build after a write that stopped may skip the file. -/
theorem not_always_retried :
    ¬∀ (start fs : FileSystem) (cli : CommandLine) (c : Config) (rel : Path) (fault : Fault)
      (outcome : Outcome) (e : BuildError) (p : Place) (n : Node), start.WellFormed →
      Config.load start cli = .ok c → fs.WellFormed →
      rel ∈ files ((ofConfig c).collect fs).1 → fs.stat (c.source.join rel) = .ok (p, n) →
      n.time ≤ fs.clock →
      ((ofConfig c).buildFile fs rel).result = .ok outcome →
      ((ofConfig c).buildFileFaulty fs rel (some fault)).result = .error e →
        ((ofConfig c).buildFile ((ofConfig c).buildFileFaulty fs rel (some fault)).files
          rel).result ≠ .ok .skipped := by
  intro h
  obtain ⟨hwhole, e, hfault⟩ := notesSite_fault
  refine h notesSite notesSiteMade _ _ _ _ _ e ["w".toList, "b".toList] (.file [98] 2) (by decide)
    notesSite_load (by decide) (by rw [notesSiteMade_files]; simp) ?_ (by decide) hwhole hfault ?_
  · cbv
  · cbv

end StaticSite.Builder
