import Mathlib.Logic.Relation
import StaticSite.Proofs.Interleaving
import StaticSite.Proofs.PathRests

/-! What the build of one file does to the files. One that is skipped, or cannot be read or
rendered, leaves them as they were. Else the output holds what is due, the directories above it are
there, and nothing else is changed but the times of the directories that something new was put
into. -/
namespace StaticSite

open FileSystem

/-- That a path is above another: the other is left with it when its last component is taken off,
once or more. -/
def Path.Above : Path → Path → Prop := Relation.TransGen fun p q => p.parent? = some q

theorem Path.Above.isAbsolute {p q : Path} (h : p.Above q) (hp : p.isAbsolute) : q.isAbsolute := by
  induction h with
  | single hq => exact isAbsolute_parent? hp hq
  | tail _ hr ih => exact isAbsolute_parent? ih hr

namespace FileSystem

variable {fs mid : FileSystem} {d q : Place} {path above : Path}

theorem place_of_find {followLast : Bool} {s : Spot} (hlf : fs.LinkFree) (hp : path.isAbsolute)
    (h : fs.find followLast path = .ok s) : s.place = path.place := by
  rw [find_eq_route hlf followLast hp] at h
  split at h
  · simp at h
  · rw [place_of_route h, lookupNames, Path.place]
    split
    · rw [List.foldl_append]
      rfl
    · rfl

theorem place_of_target (hlf : fs.LinkFree) (hp : path.isAbsolute) (h : fs.target path = .ok q) :
    q = path.place := by
  rw [target] at h
  split at h
  · simp at h
  next hf =>
    obtain rfl := Except.ok.inj h
    exact place_of_find hlf hp hf
  · simp at h
  next hf =>
    obtain rfl := Except.ok.inj h
    exact place_of_find hlf hp hf

/-! ### Directories above -/

theorem attempt_other (hlf : fs.LinkFree) (hp : path.isAbsolute) (hq : q ≠ path.place) :
    (fs.attempt path).1.at? q = fs.at? q := by
  rw [attempt]
  split
  next made hmade =>
    obtain ⟨r, hr, rfl⟩ := makeDirectory_eq_ok hmade
    have hplace : r = (trimSlashes path).place := place_of_find hlf (isAbsolute_trimSlashes hp) hr
    rw [Path.place, steps_trimSlashes, ← Path.place] at hplace
    rw [at?_tick, at?_put_of_ne fs _ (hplace ▸ hq)]
  · rfl

theorem makeDirectories_other (hwf : fs.WellFormed) (hlf : fs.LinkFree) (hp : path.isAbsolute)
    (fuel : Nat) (hq : q ≠ path.place) (habove : ∀ p, path.Above p → q ≠ p.place) :
    (fs.makeDirectories path fuel).1.at? q = fs.at? q := by
  induction fuel generalizing path with
  | zero => rfl
  | succ fuel ih =>
    rw [makeDirectories_succ hp]
    split
    · split
      · rfl
      next parent hparent =>
        have habs := Path.isAbsolute_parent? hp hparent
        have hgrows := makeDirectories_grows hwf habs fuel
        have hsame := ih habs (habove parent (.single hparent)) fun p h =>
          habove p (.head hparent h)
        split
        next up e heq =>
          rw [heq] at hsame
          exact hsame
        next up heq =>
          rw [heq] at hsame hgrows
          rw [attempt_other (hgrows.linkFree hlf) hp hq]
          exact hsame
    · exact attempt_other hlf hp hq

theorem Leads.isDirectory (h : Leads fs path d) (hlf : fs.LinkFree)
    (hnone : textRefusal? path = none) :
    fs.isDirectory path := by
  obtain ⟨t, ht⟩ := h.route
  refine isDirectory_iff.2 ⟨d, t, stat_eq_ok.2 ?_⟩
  rw [find_eq_route hlf true h.absolute, hnone]
  exact route_lookupNames.2 ht

theorem isDirectory_parent? (hwf : fs.WellFormed) (hlf : fs.LinkFree) (hp : path.isAbsolute)
    (h : path.parent? = some above) (hdir : fs.isDirectory path) : fs.isDirectory above := by
  obtain ⟨d, hd⟩ := leads_of_isDirectory hlf hp hdir
  obtain ⟨t, ht⟩ := hd.route
  have habs := Path.isAbsolute_parent? hp h
  obtain ⟨hbegins, n, hcomponents⟩ := Path.components_of_parent? hp h
  rw [Path.components_of_absolute hp, Path.components_of_absolute habs, List.cons_append,
    List.cons.injEq, show [Path.Component.ofName n] = [n].map Path.Component.ofName from rfl,
    ← List.map_append] at hcomponents
  have hnames := List.map_injective_iff.2 Path.Component.ofName_injective hcomponents.2
  rw [← route_filter_dots, hnames] at ht
  obtain ⟨r, u, hr⟩ := route_of_append hwf (at?_nil fs) (by simp) ht
  have hleads : Leads fs above r := ⟨habs, u, route_filter_dots.1 hr⟩
  obtain ⟨e, v, hstat⟩ := isDirectory_iff.1 hdir
  refine hleads.isDirectory hlf (textRefusal?_mono hbegins ?_ (find_of_ok (stat_eq_ok.1 hstat)).1)
  obtain ⟨x, hx⟩ := Path.isAbsolute_iff.1 habs
  simp [hx]

theorem isDirectory_of_above (hwf : fs.WellFormed) (hlf : fs.LinkFree) (hp : path.isAbsolute)
    (h : path.Above above) (hdir : fs.isDirectory path) : fs.isDirectory above := by
  induction h with
  | single hq => exact isDirectory_parent? hwf hlf hp hq hdir
  | tail hpath hq ih => exact isDirectory_parent? hwf hlf (Path.Above.isAbsolute hpath hp) hq ih

/-- That a path holds what was written to it with the directories above it, and that nothing else
changed; a directory has the time that it had unless something new is in it. -/
structure Placed (fs after : FileSystem) (path : Path) (content : Bytes) : Prop where
  read : after.read path = .ok content
  above : ∀ p, path.Above p → after.isDirectory p
  other : ∀ q, after.at? q = fs.at? q ∨ q = path.place ∨
    fs.at? q = none ∧ (∃ t, after.at? q = some (.directory t)) ∧ ∃ p, path.Above p ∧ q = p.place
  stamp : ∀ q n, fs.at? q = some n → Restamped fs after q

end FileSystem

/-- The errors of reading, decoding and rendering, which come before anything is written. -/
def BuildError.isOfInput : BuildError → Bool
  | .stat .. => true
  | .read .. => true
  | .notText .. => true
  | .render _ => true
  | _ => false

namespace Builder

variable {b : Builder} {fs mid after : FileSystem} {path rel : Path} {outcome done : Outcome}
  {action : Action}

theorem isDirectory_ensureParent (hwf : fs.WellFormed) (hlf : fs.LinkFree) (hp : path.isAbsolute)
    (h : ensureParent fs path = (mid, none)) {p : Path} (habove : path.Above p) :
    mid.isDirectory p := by
  have hgrows := ensureParent_grows hwf hp
  rw [h] at hgrows
  have hparent {parent : Path} (hparent : path.parent? = some parent) : mid.isDirectory parent := by
    have habs := Path.isAbsolute_parent? hp hparent
    rw [ensureParent, hparent] at h
    cases hmake : fs.makeAll parent with
    | mk made e =>
      cases e with
      | some e => simp [hmake] at h
      | none =>
        obtain rfl : made = mid := by simpa [hmake] using h
        obtain ⟨d, hd⟩ := leads_of_makeAll hwf hlf habs hmake
        exact hd.isDirectory (hgrows.linkFree hlf) (textRefusal?_of_makeAll habs hmake)
  obtain ⟨parent, hone, hmore⟩ := Relation.TransGen.head'_iff.1 habove
  cases Relation.reflTransGen_iff_eq_or_transGen.1 hmore with
  | inl heq =>
    subst heq
    exact hparent hone
  | inr hmore =>
    exact isDirectory_of_above hgrows.wellFormed (hgrows.linkFree hlf)
      (Path.isAbsolute_parent? hp hone) hmore
      (hparent hone)

theorem ensureParent_other (hwf : fs.WellFormed) (hlf : fs.LinkFree) (hp : path.isAbsolute)
    {q : Place} (h : ∀ p, path.Above p → q ≠ p.place) :
    (ensureParent fs path).1.at? q = fs.at? q := by
  rw [ensureParent_files]
  split
  · rfl
  next parent hparent =>
    exact makeDirectories_other hwf hlf (Path.isAbsolute_parent? hp hparent)
      _ (h parent (.single hparent)) fun p hp => h p (.head hparent hp)

theorem placed_of_deliver (hwf : fs.WellFormed) (hlf : fs.LinkFree) (hp : path.isAbsolute)
    {content : Place → Bytes} {wrap : IoError → BuildError}
    (h : deliver fs path content wrap done = (after, .ok outcome)) :
    outcome = done ∧ (ensureParent fs path).1.target path = .ok path.place ∧
    Placed fs after path (content path.place) := by
  have hgrows := ensureParent_grows hwf hp
  have hother {q : Place} := ensureParent_other (q := q) hwf hlf hp
  rw [deliver] at h
  cases hmid : ensureParent fs path with
  | mk mid e =>
    cases e with
    | some e => simp [hmid] at h
    | none =>
      rw [hmid] at h hgrows hother
      simp only [deposit] at h
      cases ht : mid.target path with
      | error e => simp [ht] at h
      | ok q =>
        obtain rfl := place_of_target (hgrows.linkFree hlf) hp ht
        simp only [ht, Prod.mk.injEq, Except.ok.injEq] at h
        obtain ⟨rfl, rfl⟩ := h
        refine ⟨rfl, rfl, ⟨?_, fun p habove => ?_, fun q => ?_, fun q n hq =>
          hgrows.restamped_put hq _ _⟩⟩
        · exact read_of_stat (stat_put_target hgrows.wellFormed hp ht _ _)
        · exact (keeps_put hgrows.wellFormed hp ht _ _).isDirectory hgrows.wellFormed
            (habove.isAbsolute hp)
            (isDirectory_ensureParent hwf hlf hp hmid habove)
        · by_cases hq : q = path.place
          · exact .inr (.inl hq)
          rw [at?_tick, at?_put_of_ne mid _ hq]
          cases hgrows.at? q with
          | inl hsame => exact .inl hsame
          | inr hmade =>
            obtain ⟨hnone, t, ht⟩ := hmade
            refine .inr (.inr ⟨hnone, ⟨t, ht⟩, ?_⟩)
            by_contra hno
            have hsame := hother fun p habove heq => hno ⟨p, habove, heq⟩
            simp only [ht, hnone, reduceCtorEq] at hsame

theorem ne_dots_of_target {dirs : List Text} {o : Text} {q : Place} (hwf : fs.WellFormed)
    (hlf : fs.LinkFree) (hp : path.isAbsolute) (hplain : ∀ n ∈ dirs ++ [o], Path.Plain n)
    (h : fs.target (path.descend (dirs ++ [o])) = .ok q) : o ≠ ['.', '.'] := by
  rintro rfl
  have habs := Path.isAbsolute_descend hp (dirs ++ [['.', '.']])
  have hup {s : Spot} (hs : fs.find true (path.descend (dirs ++ [['.', '.']])) = .ok s) :
      ∃ r u, s = .found r (.directory u) := by
    rw [find_eq_route hlf true habs, lookupNames_descend hp (by simp) hplain,
      ← List.append_assoc] at hs
    split at hs
    · simp at hs
    · exact route_concat_dots hwf (at?_nil fs) hs
  obtain ⟨-, ⟨content, t, hf, -⟩ | ⟨hf, -⟩⟩ := hwf.of_target habs h
  · obtain ⟨r, u, hs⟩ := hup hf
    simp at hs
  · obtain ⟨r, u, hs⟩ := hup hf
    simp at hs

theorem placed_of_perform {names : List Text} (hwf : fs.WellFormed) (hlf : fs.LinkFree)
    (hd : b.destination.isAbsolute) (hs : fs.Leads b.source b.source.place)
    (hlisted : Listed b fs b.source.place names)
    (hclear : ¬b.destination.place <+: b.source.place ++ names) (hne : action ≠ .skip)
    (h : b.perform fs (.ofNames names) none action = (after, .ok outcome)) :
    outcome = action.outcome ∧ ∃ content, fs.read (b.source.join (.ofNames names)) = .ok content ∧
      Placed fs after (b.destinationFor (.ofNames names)) (match action with
        | .write page => Text.Utf8.encode page.text
        | _ => content) := by
  obtain ⟨dirs, name, rfl, hdirs, hname⟩ := hlisted.exists_name
  obtain ⟨content, t, hat⟩ := hlisted.file
  have ho : Path.Plain (b.outputName dirs name) := plain_outputName hname
  have hout := destinationFor_ofNames hd hdirs hname
  have habs : (b.destinationFor (.ofNames (dirs ++ [name]))).isAbsolute := by
    rw [hout]
    exact Path.isAbsolute_descend hd _
  rw [perform_eq_deliver hne (stat_ensureParent hwf hlf hs hlisted hat habs)] at h
  obtain ⟨houtcome, htarget, hplaced⟩ := placed_of_deliver hwf hlf habs h
  refine ⟨houtcome, content, read_of_stat (hlisted.stat hwf hlf hs hat), ?_⟩
  -- The output is in the destination, so it is not the document itself.
  have hgrows := ensureParent_grows hwf habs
  have hdots : b.outputName dirs name ≠ ['.', '.'] := by
    rw [hout] at htarget hgrows
    refine ne_dots_of_target hgrows.wellFormed (hgrows.linkFree hlf) hd (fun n hn => ?_) htarget
    exact (List.mem_append.1 hn).elim (hdirs.plain n) (ho.singleton n)
  have hself : (b.destinationFor (.ofNames (dirs ++ [name]))).place ≠ b.source.place ++
      (dirs ++ [name]) := by
    intro heq
    rw [place_destinationFor hd hdirs hname, Path.follow, if_neg ho.ne_dot, if_neg hdots,
      List.append_assoc] at heq
    exact hclear (heq ▸ List.prefix_append _ _)
  cases action with
  | skip => exact absurd rfl hne
  | copy | copyVerbatim => simpa [Action.bytes, hself] using hplaced
  | write page => exact hplaced

theorem renderFile_eq_write {conversion : Option Conversion} {page : Rendered}
    (h : b.renderFile fs rel conversion = .ok (.write page)) :
    ∃ content text, fs.read (b.source.join rel) = .ok content ∧
      Text.Utf8.decode content = .ok text ∧
      b.pages.build fs rel text conversion = .ok (.rendered page) := by
  rw [renderFile] at h
  cases hread : fs.read (b.source.join rel) with
  | error e => simp [hread] at h
  | ok content =>
    simp only [hread] at h
    split at h
    · simp at h
    cases hdecode : Text.Utf8.decode content with
    | error flaw => simp [hdecode] at h
    | ok text =>
      cases hbuild : b.pages.build fs rel text conversion with
      | error e => simp [hdecode, hbuild] at h
      | ok output =>
        cases output with
        | verbatim => simp [hdecode, hbuild] at h
        | rendered page' =>
          obtain rfl : page' = page := by simpa [hdecode, hbuild] using h
          exact ⟨content, text, rfl, hdecode, hbuild⟩

theorem isOfInput_of_ensureParent {e : BuildError} (h : ensureParent fs path = (mid, some e)) :
    e.isOfInput = false := by
  rw [ensureParent] at h
  split at h
  · simp at h
  next parent hparent =>
    cases hmake : fs.makeAll parent with
    | mk made cause =>
      cases cause with
      | none => simp [hmake] at h
      | some cause =>
        obtain ⟨-, rfl⟩ : made = mid ∧ BuildError.createDirectory parent cause = e := by
          simpa [hmake] using h
        rfl

theorem isOfInput_of_perform {e : BuildError}
    (h : b.perform fs rel none action = (after, .error e)) :
    e.isOfInput = false := by
  have hcopy (h : b.copyFile fs rel none = (after, .error e)) : e.isOfInput = false := by
    rw [copyFile] at h
    split at h
    next mid e' hmid =>
      obtain ⟨-, rfl⟩ : mid = after ∧ e' = e := by simpa using h
      exact isOfInput_of_ensureParent hmid
    · split at h
      · cases h
        rfl
      · simp at h
  cases action with
  | skip => simp [perform] at h
  | copy | copyVerbatim => exact hcopy h
  | write page =>
    rw [perform, writePage] at h
    split at h
    next mid e' hmid =>
      obtain ⟨-, rfl⟩ : mid = after ∧ e' = e := by simpa using h
      exact isOfInput_of_ensureParent hmid
    · split at h
      · cases h
        rfl
      · simp at h

/-- What holds after the build of a listed file, by its result, in a state without links. The
destination is apart from the source, or in it and not walked. -/
theorem buildFile_effect {c : Config} {cli : CommandLine} {start : FileSystem}
    (hstart : start.WellFormed) (hload : Config.load start cli = .ok c) (hwf : fs.WellFormed)
    (hlf : fs.LinkFree) (happart : (¬c.source.place <+: c.destination.place ∧
      ¬c.destination.place <+: c.source.place) ∨
      c.source.place <+: c.destination.place ∧
        ∀ e ∈ ((ofConfig c).collect fs).1, ¬c.destination.place <+: (c.source.join e.path).place)
    (hrel : rel ∈ files ((ofConfig c).collect fs).1) :
    (((ofConfig c).buildFile fs rel).result = .ok .skipped ∨
        (∃ e, ((ofConfig c).buildFile fs rel).result = .error e ∧ e.isOfInput = true) →
      ((ofConfig c).buildFile fs rel).files = fs) ∧
    (((ofConfig c).buildFile fs rel).result = .ok .copied →
      ∃ content, fs.read (c.source.join rel) = .ok content ∧
        Placed fs ((ofConfig c).buildFile fs rel).files ((ofConfig c).destinationFor rel) content) ∧
    (((ofConfig c).buildFile fs rel).result = .ok .transformed →
      ∃ conversion content text page, (ofConfig c).transforms.transformFor rel =
        .render conversion ∧
        fs.read (c.source.join rel) = .ok content ∧ Text.Utf8.decode content = .ok text ∧
        (ofConfig c).pages.build fs rel text conversion = .ok (.rendered page) ∧
        Placed fs ((ofConfig c).buildFile fs rel).files ((ofConfig c).destinationFor rel)
          (Text.Utf8.encode page.text)) := by
  have hc := Config.loaded_of_load hstart hload
  have hs : (ofConfig c).source.isAbsolute := hc.isAbsolute_source
  have hleads := leads_source hlf hs hrel
  obtain ⟨names, rfl, hlisted⟩ := (mem_files_iff hwf hlf hleads).1 hrel
  have hclear := not_below_of_apart hs happart hlisted hrel
  cases hplan : (ofConfig c).plan fs (.ofNames names) with
  | error e =>
    rw [buildFile, buildFileFaulty, hplan]
    simp
  | ok action =>
    by_cases hskip : action = .skip
    · subst hskip
      rw [buildFile, buildFileFaulty, hplan]
      simp [perform]
    have hperformed {outcome : Outcome} (h : ((ofConfig c).buildFile fs (.ofNames names)).result =
        .ok outcome) :
        (ofConfig c).perform fs (.ofNames names) none action =
          (((ofConfig c).buildFile fs (.ofNames names)).files, .ok outcome) := by
      rw [← h, buildFile, buildFileFaulty, hplan]
    have hplaced {outcome : Outcome} (h : ((ofConfig c).buildFile fs (.ofNames names)).result =
        .ok outcome) :=
      placed_of_perform hwf hlf hc.destination.isAbsolute hleads hlisted hclear hskip (hperformed h)
    -- An action that went through was no skip, and its outcome tells which one it was.
    refine ⟨fun h => ?_, fun h => ?_, fun h => ?_⟩
    · obtain h | ⟨e, h, he⟩ := h
      · obtain ⟨hsame, -⟩ := hplaced h
        cases action with
        | skip => exact absurd rfl hskip
        | _ => cases hsame
      · have hperform : (ofConfig c).perform fs (.ofNames names) none action =
            (((ofConfig c).buildFile fs (.ofNames names)).files, .error e) := by
          rw [← h, buildFile, buildFileFaulty, hplan]
        rw [isOfInput_of_perform hperform] at he
        cases he
    · obtain ⟨hsame, content, hread, hafter⟩ := hplaced h
      cases action with
      | skip => exact absurd rfl hskip
      | copy | copyVerbatim => exact ⟨content, hread, hafter⟩
      | write page => cases hsame
    · obtain ⟨hsame, content, hread, hafter⟩ := hplaced h
      cases action with
      | skip => exact absurd rfl hskip
      | copy | copyVerbatim => cases hsame
      | write page =>
        rcases plan_cases hplan hskip with ⟨-, -, hcopy⟩ | ⟨conversion, htransform, -, hrender⟩
        · cases hcopy
        · obtain ⟨content, text, hread, hdecode, hbuild⟩ := renderFile_eq_write hrender
          exact ⟨conversion, content, text, page, htransform, hread, hdecode, hbuild, hafter⟩

def nestedSite : FileSystem where
  nodes := [(["w".toList], .directory 0), (["w".toList, "d".toList], .directory 0),
    (["w".toList, "d".toList, "b".toList], .file [98] 2)]
  here := ["w".toList]
  clock := 5

theorem nestedSite_load :
    Config.load nestedSite ⟨none, .ofString "_config.toml", none, some (.ofString "_site"),
      .build false⟩ =
      .ok notesSiteConfig := by
  cbv

theorem nestedSite_collect :
    ((ofConfig notesSiteConfig).collect nestedSite).1 =
      [⟨.ofString "d", .directory⟩, ⟨.ofString "d/b", .file⟩] :=
  collectIn_of_entries ["w".toList] [("d".toList, .directory 0)] [[_, _]] (by cbv) (by cbv) (by cbv)
    (.cons (SourceEntry.under_of_directory (by cbv) (by cbv) (by cbv) (by cbv)) .nil)

/-- The file is copied to its output, and the two directories above this are made for it. -/
theorem nestedSite_placed :
    ∃ content, nestedSite.read (notesSiteConfig.source.join (.ofString "d/b")) = .ok content ∧
      Placed nestedSite ((ofConfig notesSiteConfig).buildFile nestedSite (.ofString "d/b")).files
        ((ofConfig notesSiteConfig).destinationFor (.ofString "d/b")) content := by
  have hcopied : ((ofConfig notesSiteConfig).buildFile nestedSite (.ofString "d/b")).result =
      .ok .copied := by cbv
  have hsource : notesSiteConfig.source.place = ["w".toList] := by cbv
  have hdest : notesSiteConfig.destination.place = ["w".toList, "_site".toList] := by cbv
  have hdir : (notesSiteConfig.source.join (.ofString "d")).place = ["w".toList, "d".toList] := by
    cbv
  have hfile : (notesSiteConfig.source.join (.ofString "d/b")).place =
      ["w".toList, "d".toList, "b".toList] := by cbv
  have hlisted : .ofString "d/b" ∈ files ((ofConfig notesSiteConfig).collect nestedSite).1 := by
    rw [mem_files, nestedSite_collect]
    simp
  obtain ⟨-, hcopy, -⟩ := buildFile_effect (by decide) nestedSite_load (by decide) (by decide)
    (.inr ⟨by rw [hsource, hdest]; decide, by
      rw [nestedSite_collect]
      simp only [List.forall_mem_cons, hdest, hdir, hfile]
      decide⟩) hlisted
  exact hcopy hcopied

end Builder
end StaticSite
