import StaticSite.Proofs.Passes
import StaticSite.Proofs.Writes

/-! Whether a build leaves its sources alone. It does if no document has its output on another one
once the destination is there: a document whose output is itself is up to date, and is not
written. -/
namespace StaticSite.Builder

open FileSystem

variable {b : Builder} {c : Config} {cli : CommandLine} {fs made cur : FileSystem} {s d : Place}
  {rel : Path}

/-- That no listed document has its output on another one. -/
def Apart (b : Builder) (fs : FileSystem) : Prop :=
  ∀ f ∈ files (b.collect fs).1, ∀ g ∈ files (b.collect fs).1, ∀ q m n,
    fs.stat (b.destinationFor f) = .ok (q, m) → fs.stat (b.source.join g) = .ok (q, n) → f = g

/-- What a build keeps once the destination is made: directories, and all listed documents. -/
structure Intact (b : Builder) (s : Place) (made cur : FileSystem) : Prop where
  wellFormed : cur.WellFormed
  linkFree : cur.LinkFree
  directory : ∀ r t, made.at? r = some (.directory t) → ∃ u, cur.at? r = some (.directory u)
  document : ∀ names, Listed b made s names → cur.at? (s ++ names) = made.at? (s ++ names)

theorem Intact.refl (hwf : made.WellFormed) (hlf : made.LinkFree) : Intact b s made made :=
  ⟨hwf, hlf, fun _ t ht => ⟨t, ht⟩, fun _ _ => rfl⟩

theorem Intact.grows {next : FileSystem} (h : Intact b s made cur) (hgrows : cur.Grows next) :
    Intact b s made next := by
  refine ⟨hgrows.wellFormed, hgrows.linkFree h.linkFree, fun r t hr => ?_, fun names hlisted => ?_⟩
  · obtain ⟨u, hu⟩ := h.directory r t hr
    exact hgrows.directory r u hu
  · obtain ⟨content, t, hat⟩ := hlisted.file
    rw [hat]
    exact hgrows.at?_of_some ((h.document names hlisted).trans hat)

theorem Intact.put {path : Path} {q : Place} (h : Intact b s made cur) (hp : path.isAbsolute)
    (ht : cur.target path = .ok q) (hq : ∀ names, Listed b made s names → q ≠ s ++ names)
    (content : Bytes) :
    Intact b s made (cur.put q (.file content cur.clock)).tick := by
  refine ⟨(h.wellFormed.put_target hp ht content _).tick, (h.linkFree.put rfl q).tick,
    fun r t hr => ?_, fun names hlisted => ?_⟩
  · obtain ⟨u, hu⟩ := h.directory r t hr
    have hne : r ≠ q := by
      intro heq
      subst heq
      exact h.wellFormed.at?_of_target hp ht u hu
    exact ⟨u, by rw [at?_tick, at?_put_of_ne cur _ hne, hu]⟩
  · rw [at?_tick, at?_put_of_ne cur _ (hq names hlisted).symm, h.document names hlisted]

/-- What the build of one listed document does: it makes directories, and may put a file at the
place of its output. What was there then is older than the document. -/
theorem buildFile_step (hwf : cur.WellFormed) (hlf : cur.LinkFree) (hs : cur.Leads b.source s)
    (hd : cur.Leads b.destination d) {dirs : List Text} {name : Text}
    (hlisted : Listed b cur s (dirs ++ [name])) :
    cur.Grows (b.buildFile cur (.ofNames (dirs ++ [name]))).files ∨
      ∃ mid content, cur.Grows mid ∧ ValidName (b.outputName dirs name) ∧
        mid.target (b.destination.descend (dirs ++ [b.outputName dirs name])) =
          .ok (d ++ (dirs ++ [b.outputName dirs name])) ∧
        (b.buildFile cur (.ofNames (dirs ++ [name]))).files =
          (mid.put (d ++ (dirs ++ [b.outputName dirs name])) (.file content mid.clock)).tick ∧
        ∀ n m, cur.at? (s ++ (dirs ++ [name])) = some n →
          cur.at? (d ++ (dirs ++ [b.outputName dirs name])) = some m →
          Admitted b.destination (dirs ++ [b.outputName dirs name]) ∧ m.time < n.time := by
  obtain ⟨hdirs, hname⟩ := hlisted.valid.of_append
  have hname : ValidName name := hname name (by simp)
  have hout := destinationFor_ofNames hd.absolute hdirs hname
  have habs := Path.isAbsolute_descend hd.absolute (dirs ++ [b.outputName dirs name])
  have hgrows := ensureParent_grows hwf habs
  have hcases := buildFile_files b cur (.ofNames (dirs ++ [name]))
  rw [hout] at hcases
  generalize (ensureParent cur (b.destination.descend (dirs ++ [b.outputName dirs name]))).1 =
    mid at hgrows hcases
  rcases hcases with hsame | ⟨hstale, hsame | ⟨content, hsame⟩⟩
  · exact .inl (by rw [hsame]; exact .refl hwf)
  · exact .inl (by rw [hsame]; exact hgrows)
  rcases deposit_cases mid (b.destination.descend (dirs ++ [b.outputName dirs name])) content with
    hput | ⟨q, ht, hput⟩
  · exact .inl (by rwa [hsame, hput])
  obtain ⟨hvalid, rfl, hadmitted⟩ := (hd.mono hwf hgrows.directory).target_descend hgrows.wellFormed
    (hgrows.linkFree hlf) hdirs (plain_outputName hname) ht
  refine .inr ⟨mid, _, hgrows, hvalid, ht, hsame.trans hput, fun n m hn hm => ?_⟩
  have hfits := hadmitted m (hgrows.at?_of_some hm)
  refine ⟨hfits, ?_⟩
  have hnames : ValidNames (dirs ++ [b.outputName dirs name]) :=
    hdirs.append (by simpa [ValidNames] using hvalid)
  have hstat := (hd.stat_descend_iff hwf hlf (by simp) hnames).2 ⟨rfl, hm, hfits⟩
  obtain ⟨content', t, hfile⟩ := hlisted.file
  obtain rfl := Option.some.inj (hn.symm.trans hfile)
  rw [isUpToDate_of_stat (hlisted.stat hwf hlf hs hn) hstat, Except.ok.injEq,
    decide_eq_false_iff_not, Nat.not_le] at hstale
  -- A directory would be in the way of the file that is put there.
  cases m with
  | directory u =>
    exact absurd (hgrows.at?_of_some hm) (hgrows.wellFormed.at?_of_target habs ht u)
  | file | link => exact hstale

theorem Intact.buildFile (h : Intact b s made cur) (hwf : made.WellFormed) (hlf : made.LinkFree)
    (hs : made.Leads b.source s) (hd : made.Leads b.destination d) (hapart : b.Apart made)
    (hrel : rel ∈ files (b.collect made).1) : Intact b s made (b.buildFile cur rel).files := by
  obtain ⟨names, rfl, hlisted⟩ := (mem_files_iff hwf hlf hs).1 hrel
  obtain ⟨dirs, name, rfl, -⟩ := hlisted.exists_name
  have hkept {other : List Text} (hother : Listed b made s other) : Listed b cur s other := by
    obtain ⟨content, t, hat⟩ := hother.file
    exact hother.of_file ⟨content, t, (h.document other hother).trans hat⟩
  rcases buildFile_step h.wellFormed h.linkFree (hs.mono hwf h.directory) (hd.mono hwf h.directory)
      (hkept hlisted) with hgrows | ⟨mid, content, hgrows, hvalid, ht, hput, hstale⟩
  · exact h.grows hgrows
  rw [hput]
  refine (h.grows hgrows).put (Path.isAbsolute_descend hd.absolute _) ht ?_ content
  intro other hother hplace
  -- The output goes to a listed document: it is the document itself, and is not older than itself.
  obtain ⟨c, t, hat⟩ := hother.file
  obtain ⟨c', t', hat'⟩ := hlisted.file
  have hcur := (h.document other hother).trans hat
  obtain ⟨hfits, hlt⟩ := hstale _ _ ((h.document _ hlisted).trans hat') (hplace ▸ hcur)
  have hnames : ValidNames (dirs ++ [b.outputName dirs name]) :=
    hlisted.valid.of_append.1.append (by simpa [ValidNames] using hvalid)
  have hdest : made.stat (b.destinationFor (.ofNames (dirs ++ [name]))) =
      .ok (s ++ other, .file c t) := by
    rw [destinationFor_ofNames hd.absolute hlisted.valid.of_append.1 (hlisted.valid name (by simp))]
    exact (hd.stat_descend_iff hwf hlf (by simp) hnames).2 ⟨hplace.symm, hat, hfits⟩
  have heq := hapart _ hrel _ ((mem_files_iff hwf hlf hs).2 ⟨other, rfl, hother⟩) _ _ _ hdest
    (hother.stat hwf hlf hs hat)
  obtain rfl := Path.ofNames_inj hlisted.valid hother.valid hlisted.ne_nil hother.ne_nil heq
  rw [hat, Option.some.injEq] at hat'
  rw [← hat'] at hlt
  exact Nat.lt_irrefl _ hlt

/-- A build of any of the documents, in any order, leaves them all alone. -/
theorem Intact.buildFiles (h : Intact b s made cur) (hwf : made.WellFormed) (hlf : made.LinkFree)
    (hs : made.Leads b.source s) (hd : made.Leads b.destination d)
    (hapart : b.Apart made) {rels : List Path}
    (hrels : ∀ rel ∈ rels, rel ∈ files (b.collect made).1) :
    Intact b s made (b.buildFiles cur rels).files := by
  induction rels generalizing cur with
  | nil => exact h
  | cons rel rels ih =>
    rw [Builder.buildFiles]
    exact ih (h.buildFile hwf hlf hs hd hapart (hrels rel (by simp))) fun r hr =>
      hrels r (by simp [hr])

theorem Intact.read (h : Intact b s made cur) (hs : cur.Leads b.source s) {names : List Text}
    (hlisted : Listed b made s names) {content : Bytes} {t : Nat}
    (hat : made.at? (s ++ names) = some (.file content t)) :
    cur.read (b.source.join (.ofNames names)) = .ok content := by
  have hkept := (h.document names hlisted).trans hat
  rw [FileSystem.read, (hlisted.of_file ⟨content, t, hkept⟩).stat h.wellFormed h.linkFree hs hkept]

theorem read_of_built {after : FileSystem} (hwf : fs.WellFormed) (hlf : fs.LinkFree)
    (hs : fs.Leads b.source s) (hd : b.destination.isAbsolute)
    (hapart : ∀ made, fs.makeAll b.destination = (made, none) → b.Apart made)
    (hrel : rel ∈ files (b.collect fs).1) (hbuilt : Built b fs after) :
    after.read (b.source.join rel) = fs.read (b.source.join rel) := by
  obtain ⟨names, rfl, hlisted⟩ := (mem_files_iff hwf hlf hs).1 hrel
  obtain ⟨content, t, hat⟩ := hlisted.file
  rw [(Intact.refl hwf hlf).read hs hlisted hat]
  have hread {made cur : FileSystem} (hgrows : fs.Grows made) (h : Intact b s made cur) :
      cur.read (b.source.join (.ofNames names)) = .ok content := by
    have hmade := hgrows.at?_of_some hat
    exact h.read ((hs.mono hwf hgrows.directory).mono hgrows.wellFormed h.directory)
      (hlisted.of_file ⟨content, t, hmade⟩) hmade
  cases hbuilt with
  | refused e hmake =>
    have hgrows := grows_of_makeAll hwf hd hmake
    exact hread hgrows (.refl hgrows.wellFormed (hgrows.linkFree hlf))
  | passed made rels report hpass =>
    have hgrows := grows_of_makeAll hwf hd hpass.makes
    obtain ⟨d, hdest⟩ := leads_of_makeAll hwf hlf hd hpass.makes
    refine hread hgrows (hpass.leaves ▸ (Intact.refl hgrows.wellFormed
      (hgrows.linkFree hlf)).buildFiles hgrows.wellFormed (hgrows.linkFree hlf)
        (hs.mono hwf hgrows.directory) hdest (hapart _ hpass.makes) fun r hr => ?_)
    exact hpass.all.mem_iff.1 hr

end StaticSite.Builder
