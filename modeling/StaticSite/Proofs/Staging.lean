import StaticSite.Proofs.Collisions
import StaticSite.Proofs.Shapes
import StaticSite.Proofs.Sources

/-! When a build overwrites a source. If a document has its output on another one, a state of the
same shape is staged in which that document alone is newer than the rest: its build, and no other
before it, writes to the other document. -/
namespace StaticSite

open FileSystem

namespace FileSystem

variable {fs : FileSystem} {p q f : Place} {n : Node}

/-- The state where the file at `f` is empty and new, and all others are old and hold the same. -/
def restage (f : Place) (content : Bytes) (q : Place) : Node → Node
  | .file _ _ => if q = f then .file [] 1 else .file content 0
  | n => n

def stage (fs : FileSystem) (f : Place) (content : Bytes) : FileSystem where
  nodes := fs.nodes.map fun e => (e.1, restage f content e.1 e.2)
  here := fs.here
  clock := 1

theorem at?_stage (fs : FileSystem) (f : Place) (content : Bytes) (q : Place) :
    (fs.stage f content).at? q = (fs.at? q).map (restage f content q) := by
  by_cases hq : q = []
  · subst hq
    rfl
  rw [at?_of_ne_nil _ hq, at?_of_ne_nil _ hq, stage]
  induction fs.nodes with
  | nil => rfl
  | cons e l ih =>
    obtain ⟨r, m⟩ := e
    cases hqr : q == r with
    | true => simp [eq_of_beq hqr]
    | false => simpa [List.lookup_cons, hqr] using ih

theorem blank_restage (f : Place) (content : Bytes) (q : Place) (n : Node) :
    (restage f content q n).blank = n.blank := by
  cases n with
  | file c t =>
    rw [restage]
    split <;> rfl
  | directory | link => rfl

theorem sameShape_stage (hwf : fs.WellFormed) (hlf : fs.LinkFree) (f : Place) (content : Bytes) :
    SameShape fs (fs.stage f content) := by
  refine ⟨⟨?_, fun {p name n} hn => ?_, fun e he => ?_⟩, fun e he => ?_, fun q => ?_⟩
  · simpa [stage, Function.comp_def] using hwf.once
  · rw [at?_stage, Option.map_eq_some_iff] at hn
    obtain ⟨m, hm, -⟩ := hn
    obtain ⟨t, ht⟩ := hwf.parent hm
    exact ⟨t, by rw [at?_stage, ht]; rfl⟩
  · obtain ⟨e, hmem, rfl⟩ := List.mem_map.1 he
    exact hwf.names e hmem
  · obtain ⟨e, hmem, rfl⟩ := List.mem_map.1 he
    have hlink := hlf e hmem
    cases hn : e.2 with
    | file c t =>
      rw [restage]
      split <;> rfl
    | directory => rfl
    | link => simp [hn, Node.isLink] at hlink
  · rw [at?_stage, Option.map_map]
    congr 1
    funext n
    exact blank_restage f content q n

end FileSystem

namespace Builder

variable {b : Builder} {fs made cur : FileSystem} {s d : Place} {f g : List Text} {rel : Path}

/-! ### Outputs on documents -/

/-- That the output of one document lies on another. -/
def Covers (b : Builder) (s d : Place) (e h : List Text) : Prop :=
  e ≠ h ∧ ValidNames h ∧ ∃ dirs name, e = dirs ++ [name] ∧
    s ++ h = d ++ (dirs ++ [b.outputName dirs name])

theorem Covers.converts (h : Covers b s s f g) :
    b.Converts (.ofNames f) ∧ ¬b.Converts (.ofNames g) := by
  obtain ⟨hne, hvalid, dirs, name, rfl, hplace⟩ := h
  rw [List.append_right_inj] at hplace
  subst hplace
  have hname : ValidName (b.outputName dirs name) := hvalid _ (by simp)
  rw [outputName] at hname hne ⊢
  split at hne
  next hconverts =>
    rw [if_pos hconverts] at hname ⊢
    refine ⟨hconverts, ?_⟩
    obtain ⟨hstem, hhtml⟩ := (Path.renamed_eq_name_iff hname).1 rfl
    rw [hhtml]
    exact not_converts_html dirs _
  · exact absurd rfl hne

/-- Along outputs that lie on documents a number grows by a fixed amount: the depth, or it falls, or
the step is from a converted document to one that is not. So no document is written through
others. -/
theorem exists_rank (b : Builder) (s d : Place) :
    ∃ (rank : List Text → Int) (step : Int), 0 < step ∧ ∀ e h, Covers b s d e h →
      rank h = rank e + step := by
  have hlength {e h : List Text} (hc : Covers b s d e h) :
      s.length + h.length = d.length + e.length := by
    obtain ⟨-, -, dirs, name, rfl, hplace⟩ := hc
    have := congrArg List.length hplace
    simpa using this
  rcases Nat.lt_trichotomy s.length d.length with hlt | heq | hgt
  · refine ⟨fun names => names.length, d.length - s.length, by omega, fun e h hc => ?_⟩
    have := hlength hc
    show (h.length : Int) = e.length + (d.length - s.length)
    omega
  · refine ⟨fun names => if b.Converts (.ofNames names) then 0 else 1, 1, by decide,
      fun e h hc => ?_⟩
    obtain rfl : s = d := by
      obtain ⟨-, -, dirs, name, -, hplace⟩ := hc
      exact (List.append_inj hplace heq).1
    obtain ⟨hconverts, hnot⟩ := hc.converts
    simp [hconverts, hnot]
  · refine ⟨fun names => -names.length, s.length - d.length, by omega, fun e h hc => ?_⟩
    have := hlength hc
    show -(h.length : Int) = -e.length + (s.length - d.length)
    omega

/-! ### The build of an empty document -/

def emptyOutput (b : Builder) (rel : Path) : Bytes :=
  match b.transforms.transformFor rel with
  | .copy => []
  | .render conversion =>
    if b.pages.requireFrontMatter then []
      else Text.Utf8.encode (Conversion.optional conversion ['\n'])

theorem render_nil (snippets : Template.Snippets) (env : Environment) (source : Path) :
    Template.render snippets env source [] = .ok ⟨['\n'], []⟩ := by
  have hscan : Line.scan [] = ⟨[], [], none⟩ := by
    rw [Line.scan]
    rfl
  rw [Template.render, show Text.splitBy (· == '\n') [] = [[]] from rfl, Template.renderLines,
    hscan]
  rfl

theorem build_nil {rules : PageRules} (h : rules.requireFrontMatter = false) (fs : FileSystem)
    (source : Path) (conversion : Option Conversion) :
    rules.build fs source [] conversion =
      .ok (.rendered ⟨Conversion.optional conversion ['\n'], []⟩) := by
  have hdocument : Document.ofText [] = .ok ⟨none, []⟩ := rfl
  rw [PageRules.build, hdocument, h]
  simp only [PageRules.compose, render_nil]
  rfl

theorem buildFile_of_empty {origin : Place} {t : Nat} (hshown : b.policy.excludesPath rel = false)
    (hin : cur.stat (b.source.join rel) = .ok (origin, .file [] t))
    (hparent : ensureParent cur (b.destinationFor rel) = (cur, none))
    (hstale : isUpToDate cur (b.source.join rel) (b.destinationFor rel) = .ok false) :
    (b.buildFile cur rel).files = (cur.deposit (b.destinationFor rel) fun _ =>
      b.emptyOutput rel).1 := by
  have hread : cur.read (b.source.join rel) = .ok [] := by rw [FileSystem.read, hin]
  have hcopied : (b.copyFile cur rel none).1 = (cur.deposit (b.destinationFor rel) fun _ =>
      []).1 := by
    rw [copyFile, hparent]
    simp only [copy_eq_deposit hin, ite_self]
    split <;> simp_all
  rw [buildFile, buildFileFaulty, plan, hshown, decide, hstale]
  simp only [Bool.false_eq_true, if_false, Except.map]
  rw [emptyOutput]
  cases htransform : b.transforms.transformFor rel with
  | copy => exact hcopied
  | render conversion =>
    have hempty : b.pages.copiesVerbatim [] = b.pages.requireFrontMatter := by
      have hfence : (Text.Utf8.encode Document.fence).isPrefixOf [] = false := by decide
      rw [PageRules.copiesVerbatim, hfence]
      simp
    have hdecode : Text.Utf8.decode [] = .ok [] := rfl
    simp only [renderFile, hread, hempty]
    cases hrequire : b.pages.requireFrontMatter with
    | true => exact hcopied
    | false =>
      simp only [Bool.false_eq_true, if_false, hdecode, build_nil hrequire, perform, writePage,
        hparent, write_eq_deposit]
      split <;> simp_all

/-! ### The staged run -/

/-- What the staged run keeps. `f` is the new document, and its output lies on `g`. Documents of no
higher rank are as they were, and `g` holds what it held or what an empty document becomes. -/
structure Staged (b : Builder) (s : Place) (made : FileSystem) (rank : List Text → Int)
    (f g : List Text) (cur : FileSystem) : Prop where
  wellFormed : cur.WellFormed
  linkFree : cur.LinkFree
  directory : ∀ r t, made.at? r = some (.directory t) → ∃ u, cur.at? r = some (.directory u)
  document : ∀ names, Listed b made s names →
    ∃ content t, cur.at? (s ++ names) = some (.file content t)
  kept : ∀ names, Listed b made s names → rank names ≤ rank f →
    cur.at? (s ++ names) = made.at? (s ++ names)
  covered : cur.at? (s ++ g) = made.at? (s ++ g) ∨
    ∃ t, cur.at? (s ++ g) = some (.file (b.emptyOutput (.ofNames f)) t)

def Overwritten (b : Builder) (s : Place) (f g : List Text) (cur : FileSystem) : Prop :=
  ∃ t, cur.at? (s ++ g) = some (.file (b.emptyOutput (.ofNames f)) t)

variable {rank : List Text → Int} {step : Int}

theorem Staged.listed (h : Staged b s made rank f g cur) {names : List Text}
    (hlisted : Listed b made s names) :
    Listed b cur s names :=
  hlisted.of_file (h.document names hlisted)

theorem Staged.grows {next : FileSystem} (h : Staged b s made rank f g cur)
    (hgrows : cur.Grows next) (hg : Listed b made s g) :
    Staged b s made rank f g next ∧ (Overwritten b s f g cur → Overwritten b s f g next) := by
  have hsome {names : List Text} (hlisted : Listed b made s names) :
      next.at? (s ++ names) = cur.at? (s ++ names) := by
    obtain ⟨content, t, hat⟩ := h.document names hlisted
    rw [hat]
    exact hgrows.at?_of_some hat
  refine ⟨⟨hgrows.wellFormed, hgrows.linkFree h.linkFree, fun r t hr => ?_, fun names hlisted => ?_,
    fun names hlisted hrank => ?_, ?_⟩, fun ho => ?_⟩
  · obtain ⟨u, hu⟩ := h.directory r t hr
    exact hgrows.directory r u hu
  · rw [hsome hlisted]
    exact h.document names hlisted
  · rw [hsome hlisted]
    exact h.kept names hlisted hrank
  · rw [hsome hg]
    exact h.covered
  · rw [Overwritten, hsome hg]
    exact ho

theorem Staged.put {path : Path} {q : Place} (h : Staged b s made rank f g cur)
    (hp : path.isAbsolute) (ht : cur.target path = .ok q) (content : Bytes) (t : Nat)
    (hq : ∀ names, Listed b made s names → s ++ names = q → rank f < rank names)
    (hcontent : s ++ g = q → content = b.emptyOutput (.ofNames f)) :
    Staged b s made rank f g (cur.put q (.file content t)).tick ∧
      (Overwritten b s f g cur ∨ s ++ g = q →
        Overwritten b s f g (cur.put q (.file content t)).tick) := by
  have hne : q ≠ [] := by
    obtain ⟨⟨r, m, u, rfl, -⟩, -⟩ := h.wellFormed.of_target hp ht
    simp
  -- Nothing changes but at `q`, where no document of low rank is.
  have hother {r : Place} (hr : r ≠ q) : (cur.put q (.file content t)).tick.at? r = cur.at? r := by
    rw [at?_tick, at?_put_of_ne cur _ hr]
  have hself : (cur.put q (.file content t)).tick.at? q = some (.file content t) := by
    rw [at?_tick, at?_put_self cur hne]
  have hcovered (hgq : s ++ g = q) : Overwritten b s f g (cur.put q (.file content t)).tick :=
    ⟨t, by rw [hgq, hself, hcontent hgq]⟩
  refine ⟨⟨(h.wellFormed.put_target hp ht content t).tick, (h.linkFree.put rfl q).tick,
    fun r u hr => ?_, fun names hlisted => ?_, fun names hlisted hrank => ?_, ?_⟩, ?_⟩
  · obtain ⟨v, hv⟩ := h.directory r u hr
    have hrq : r ≠ q := by
      intro heq
      subst heq
      exact h.wellFormed.at?_of_target hp ht v hv
    exact ⟨v, by rw [hother hrq, hv]⟩
  · by_cases hnames : s ++ names = q
    · exact ⟨content, t, by rw [hnames, hself]⟩
    · rw [hother hnames]
      exact h.document names hlisted
  · have hnames : s ++ names ≠ q := fun he => by
      have := hq names hlisted he
      omega
    rw [hother hnames]
    exact h.kept names hlisted hrank
  · by_cases hgq : s ++ g = q
    · exact .inr (hcovered hgq)
    · rw [hother hgq]
      exact h.covered
  · rintro (⟨u, hu⟩ | hgq)
    · by_cases hgq : s ++ g = q
      · exact hcovered hgq
      · exact ⟨u, by rw [hother hgq, hu]⟩
    · exact hcovered hgq

theorem ensureParent_of_directory (hwf : cur.WellFormed) (hlf : cur.LinkFree)
    (hd : cur.Leads b.destination d) {dirs : List Text} {name : Text} (hdirs : ValidNames dirs)
    (hname : ValidName name) (hadmitted : Admitted b.destination (dirs ++ [name])) {t : Nat}
    (hat : cur.at? (d ++ dirs) = some (.directory t)) :
    ensureParent cur (b.destination.descend (dirs ++ [name])) = (cur, none) := by
  obtain ⟨hnone, hfits⟩ := hadmitted
  have habs := Path.isAbsolute_descend hd.absolute dirs
  have hleads := hd.descend hwf hlf hdirs (fun m hm => hfits m (by simp [hm])) hat
  have hmade : cur.makeAll (b.destination.descend dirs).trimmed = (cur, none) :=
    makeDirectories_of_leads hlf hleads.trimmed (textRefusal?_above hd.absolute hname.plain hnone) _
  rw [ensureParent, Path.parent?_descend_concat hd.absolute dirs hname.plain]
  simp only [hmade]

/-- The state that is staged: `f` is empty and newer than all other documents, and its output lies
on `g`, in a destination that is there. -/
structure Exposed (b : Builder) (s d : Place) (made : FileSystem) (rank : List Text → Int)
    (step : Int) (f g : List Text) : Prop where
  wellFormed : made.WellFormed
  linkFree : made.LinkFree
  source : made.Leads b.source s
  destination : made.Leads b.destination d
  newer : Listed b made s f
  older : Listed b made s g
  new : made.at? (s ++ f) = some (.file [] 1)
  old : ∀ names, Listed b made s names → names ≠ f →
    ∃ content, made.at? (s ++ names) = some (.file content 0)
  covers : Covers b s d f g
  admitted : ∀ dirs name, f = dirs ++ [name] →
    Admitted b.destination (dirs ++ [b.outputName dirs name])
  pos : 0 < step
  rank : ∀ e h, Covers b s d e h → rank h = rank e + step

variable {e : List Text}

theorem Staged.rank_of_covers (h : Staged b s made rank f g cur)
    (hx : Exposed b s d made rank step f g) (he : Listed b made s e) (hef : e ≠ f)
    {names : List Text} (hlisted : Listed b made s names) {dirs : List Text} {name : Text}
    (hname : e = dirs ++ [name]) (hplace : s ++ names = d ++ (dirs ++ [b.outputName dirs name]))
    (hstale : ∀ n m, cur.at? (s ++ e) = some n → cur.at? (s ++ names) = some m → m.time < n.time) :
    rank f < rank names ∧ names ≠ g := by
  have hold (hrank : rank e ≤ rank f) : False := by
    obtain ⟨content, hat⟩ := hx.old e he hef
    obtain ⟨c, t, hat'⟩ := h.document names hlisted
    have := hstale _ _ ((h.kept e he hrank).trans hat) hat'
    exact Nat.not_lt_zero _ this
  have hne : e ≠ names := by
    intro heq
    subst heq
    obtain ⟨c, t, hat⟩ := h.document e he
    exact Nat.lt_irrefl _ (hstale _ _ hat hat)
  have hrank := hx.rank e names ⟨hne, hlisted.valid, dirs, name, hname, hplace⟩
  have hpos := hx.pos
  have hhigh : rank f < rank e := by
    by_contra hlow
    exact hold (by omega)
  refine ⟨by omega, ?_⟩
  intro hsame
  subst hsame
  have := hx.rank f names hx.covers
  omega

theorem Staged.buildFile_other (h : Staged b s made rank f g cur)
    (hx : Exposed b s d made rank step f g) (he : Listed b made s e) (hef : e ≠ f) :
    Staged b s made rank f g (b.buildFile cur (.ofNames e)).files ∧
      (Overwritten b s f g cur → Overwritten b s f g (b.buildFile cur (.ofNames e)).files) := by
  obtain ⟨dirs, name, rfl, -⟩ := he.exists_name
  have hs := hx.source.mono hx.wellFormed h.directory
  have hd := hx.destination.mono hx.wellFormed h.directory
  rcases buildFile_step h.wellFormed h.linkFree hs hd (h.listed he) with
    hgrows | ⟨mid, content, hgrows, hvalid, ht, hput, hstale⟩
  · exact h.grows hgrows hx.older
  obtain ⟨hmid, hover⟩ := h.grows hgrows hx.older
  have hfree {names : List Text} (hlisted : Listed b made s names)
      (hplace : s ++ names = d ++ (dirs ++ [b.outputName dirs name])) : rank f < rank names ∧
      names ≠ g :=
    h.rank_of_covers hx he hef hlisted rfl hplace fun n m hn hm => (hstale n m hn (hplace ▸ hm)).2
  obtain ⟨hnext, hover'⟩ := hmid.put (Path.isAbsolute_descend hd.absolute _) ht content mid.clock
    (fun names hlisted hplace => (hfree hlisted hplace).1)
    (fun hplace => absurd rfl (hfree hx.older hplace).2)
  rw [hput]
  exact ⟨hnext, fun ho => hover' (.inl (hover ho))⟩

theorem Staged.before_new (h : Staged b s made rank f g cur)
    (hx : Exposed b s d made rank step f g) :
    (b.destinationFor (.ofNames f)).isAbsolute ∧
    ensureParent cur (b.destinationFor (.ofNames f)) = (cur, none) ∧
      cur.stat (b.source.join (.ofNames f)) = .ok (s ++ f, .file [] 1) ∧
      ∃ c t, cur.at? (s ++ g) = some (.file c t) ∧
        cur.stat (b.destinationFor (.ofNames f)) = .ok (s ++ g, .file c t) := by
  obtain ⟨hfg, hvalid, dirs, name, rfl, hplace⟩ := hx.covers
  obtain ⟨hdirs, hname⟩ := hx.newer.valid.of_append
  have hname : ValidName name := hname name (by simp)
  have hs := hx.source.mono hx.wellFormed h.directory
  have hd := hx.destination.mono hx.wellFormed h.directory
  have hout := destinationFor_ofNames hd.absolute hdirs hname
  have hadmitted := hx.admitted dirs name rfl
  obtain ⟨c, t, hg⟩ := h.document g hx.older
  have hat := hg
  rw [hplace] at hat
  have hvalidOut : ValidNames (dirs ++ [b.outputName dirs name]) :=
    (h.wellFormed.validNames hat).of_append.2
  have hbelow : cur.at? (d ++ dirs ++ [b.outputName dirs name]) = some (.file c t) := by
    rw [List.append_assoc]
    exact hat
  obtain ⟨u, hdir⟩ := h.wellFormed.parent hbelow
  have hkept := (h.kept _ hx.newer (Int.le_refl _)).trans hx.new
  rw [hout]
  refine ⟨Path.isAbsolute_descend hd.absolute _, ?_, ?_, c, t, hg, ?_⟩
  · exact ensureParent_of_directory h.wellFormed h.linkFree hd hdirs (hvalidOut _ (by simp))
      hadmitted hdir
  · exact (h.listed hx.newer).stat h.wellFormed h.linkFree hs hkept
  · exact (hd.stat_descend_iff h.wellFormed h.linkFree (by simp) hvalidOut).2
      ⟨hplace, hg, hadmitted⟩

theorem Staged.buildFile_new (h : Staged b s made rank f g cur)
    (hx : Exposed b s d made rank step f g) :
    Staged b s made rank f g (b.buildFile cur (.ofNames f)).files ∧
      Overwritten b s f g (b.buildFile cur (.ofNames f)).files := by
  obtain ⟨habs, hparent, hin, c, t, hg, hstat⟩ := h.before_new hx
  have hfresh : isUpToDate cur (b.source.join (.ofNames f)) (b.destinationFor (.ofNames f)) =
      .ok (Decidable.decide (1 ≤ t)) := by
    rw [isUpToDate_of_stat hin hstat]
    rfl
  have hrank := hx.rank _ g hx.covers
  have hpos := hx.pos
  by_cases hstale : 1 ≤ t
  · have hsame : (b.buildFile cur (.ofNames f)).files = cur := by
      cases buildFile_files b cur (.ofNames f) with
      | inl hsame => exact hsame
      | inr hcase =>
        obtain ⟨hfalse, -⟩ := hcase
        rw [hfresh] at hfalse
        simp [hstale] at hfalse
    rw [hsame]
    refine ⟨h, ?_⟩
    cases h.covered with
    | inl hold =>
      obtain ⟨content, hzero⟩ := hx.old g hx.older hx.covers.1.symm
      rw [hg, hzero, Option.some.injEq, Node.file.injEq] at hold
      omega
    | inr hover => exact hover
  · have hfalse := hfresh
    rw [decide_eq_false hstale] at hfalse
    have hshown := hx.newer.shown _ hx.newer.ne_nil (List.prefix_refl _)
    have htarget : cur.target (b.destinationFor (.ofNames f)) = .ok (s ++ g) := by
      rw [target, stat_eq_ok.1 hstat]
    rw [buildFile_of_empty hshown hin hparent hfalse, deposit, htarget]
    obtain ⟨hnext, hover⟩ := h.put habs htarget _ cur.clock (fun names hlisted hnames => by
      obtain rfl := List.append_cancel_left hnames
      omega) (fun _ => rfl)
    exact ⟨hnext, hover (.inr rfl)⟩

/-- After a run over all documents, in any order, the covered one has been overwritten. -/
theorem Staged.buildFiles (h : Staged b s made rank f g cur) (hx : Exposed b s d made rank step f g)
    {rels : List Path} (hrels : ∀ rel ∈ rels, rel ∈ files (b.collect made).1)
    (hf : Overwritten b s f g cur ∨ Path.ofNames f ∈ rels) :
    Staged b s made rank f g (b.buildFiles cur rels).files ∧
    Overwritten b s f g (b.buildFiles cur rels).files := by
  induction rels generalizing cur with
  | nil =>
    cases hf with
    | inl ho => exact ⟨h, ho⟩
    | inr hmem => simp at hmem
  | cons rel rels ih =>
    rw [Builder.buildFiles]
    have htail : ∀ r ∈ rels, r ∈ files (b.collect made).1 := fun r hr => hrels r (by simp [hr])
    obtain ⟨names, rfl, hlisted⟩ :=
      (mem_files_iff hx.wellFormed hx.linkFree hx.source).1 (hrels rel (by simp))
    by_cases hnames : names = f
    · subst hnames
      obtain ⟨hnext, hover⟩ := h.buildFile_new hx
      exact ih hnext htail (.inl hover)
    · obtain ⟨hnext, hover⟩ := h.buildFile_other hx hlisted hnames
      refine ih hnext htail ?_
      cases hf with
      | inl ho => exact .inl (hover ho)
      | inr hmem =>
        cases List.mem_cons.1 hmem with
        | inl heq =>
          exact absurd (Path.ofNames_inj hlisted.valid hx.newer.valid hlisted.ne_nil hx.newer.ne_nil
            heq.symm) hnames
        | inr hmem => exact .inr hmem

end Builder
end StaticSite
