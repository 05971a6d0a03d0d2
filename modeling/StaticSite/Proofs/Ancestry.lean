import Mathlib
import StaticSite.Proofs.Passes

/-! How exclusion is passed down. The walk asks of every directory on the way to a file whether it
is left out, the build of a single file only of the file. They agree, but for directories that are
left out by themselves: by a configured name that is their whole path, by an empty last part of it,
or as a private drive. What is in such a directory is built if it is asked for. -/
namespace StaticSite

theorem Text.eq_of_splitBy_eq_singleton {sep : Char → Bool} {t piece : Text}
    (h : splitBy sep t = [piece]) :
    t = piece := by
  induction t generalizing piece with
  | nil => simpa [splitBy] using h
  | cons c t ih =>
    rw [splitBy] at h
    split at h
    · simp [splitBy_ne_nil] at h
    · cases hrest : splitBy sep t with
      | nil => exact absurd hrest (splitBy_ne_nil sep t)
      | cons first rest =>
        rw [hrest] at h
        simp only [List.cons.injEq] at h
        obtain ⟨hpiece, hnil⟩ := h
        rw [← hpiece, ih (hnil ▸ hrest)]

namespace Name

variable {x y dir : Text}

theorem parts_append_slash (x y : Text) : parts (x ++ '/' :: y) = parts x ++ parts y :=
  Text.splitBy_append_cons isSeparator x y (by decide)

theorem parts_ne_nil (t : Text) : parts t ≠ [] := Text.splitBy_ne_nil isSeparator t

theorem exists_parts (t : Text) : ∃ dirs, parts t = dirs ++ [basename t] := by
  obtain ⟨dirs, last, h⟩ := (List.eq_nil_or_concat' (parts t)).resolve_left (parts_ne_nil t)
  exact ⟨dirs, by simp [basename, h]⟩

theorem eq_basename_of_parts (h : parts x = [basename x]) :
    x = basename x := Text.eq_of_splitBy_eq_singleton h

def withoutDrive (dirs : List Text) : List Text :=
  if dirs.head?.any isDrive then dirs.tail else dirs

theorem withoutDrive_cons (first : Text) (dirs : List Text) :
    withoutDrive (first :: dirs) = if isDrive first then dirs else first :: dirs := rfl

theorem withoutDrive_append {dirs : List Text} (hne : dirs ≠ []) (more : List Text) :
    withoutDrive (dirs ++ more) = withoutDrive dirs ++ more := by
  obtain ⟨first, dirs, rfl⟩ := List.exists_cons_of_ne_nil hne
  rw [List.cons_append, withoutDrive_cons, withoutDrive_cons]
  split <;> rfl

theorem mem_segments : dir ∈ segments x ↔ dir ∈ withoutDrive (parts x).dropLast ∧ dir ≠ [] := by
  rw [segments, List.mem_filter, decide_eq_true_eq]
  rfl

theorem mem_segments_append_slash :
    dir ∈ segments (x ++ '/' :: y) ↔ dir ∈ withoutDrive (parts x ++ (parts y).dropLast) ∧
    dir ≠ [] := by
  rw [mem_segments, parts_append_slash, List.dropLast_append_of_ne_nil (parts_ne_nil y)]

theorem segments_subset (h : dir ∈ segments x) : dir ∈ segments (x ++ '/' :: y) := by
  obtain ⟨dirs, hparts⟩ := exists_parts x
  obtain ⟨hdir, hne⟩ := mem_segments.1 h
  rw [hparts, List.dropLast_concat] at hdir
  have hdirs : dirs ≠ [] := by
    rintro rfl
    simp [withoutDrive] at hdir
  refine mem_segments_append_slash.2 ⟨?_, hne⟩
  rw [hparts, List.append_assoc, withoutDrive_append hdirs]
  exact List.mem_append_left _ hdir

theorem basename_mem_segments (hne : basename x ≠ [])
    (h : ¬(parts x = [basename x] ∧ isDrive (basename x))) :
    basename x ∈ segments (x ++ '/' :: y) := by
  obtain ⟨dirs, hparts⟩ := exists_parts x
  refine mem_segments_append_slash.2 ⟨?_, hne⟩
  rw [hparts]
  cases dirs with
  | nil =>
    have hdrive : ¬isDrive (basename x) := fun hdrive => h ⟨hparts, hdrive⟩
    rw [List.nil_append, List.cons_append, withoutDrive_cons, if_neg hdrive]
    exact List.mem_cons_self
  | cons first dirs =>
    rw [List.cons_append, List.cons_append, withoutDrive_cons]
    split <;> simp

end Name

theorem Path.components_append_slash {t : Text} (ht : t ≠ []) (y : Text) :
    (Path.mk t).components <+: (Path.mk (t ++ '/' :: y)).components := by
  have hroot : (Path.mk (t ++ '/' :: y)).isAbsolute = (Path.mk t).isAbsolute := by
    cases t with
    | nil => exact absurd rfl ht
    | cons c t => rfl
  have hparts : partsFrom 0 (Text.pieces t) <+: partsFrom 0 (Text.pieces (t ++ '/' :: y)) := by
    rw [Text.pieces_append_slash, partsFrom_append]
    exact List.prefix_append _ _
  have hall : (Path.mk t).parts <+: (Path.mk (t ++ '/' :: y)).parts := by
    rw [parts, parts, hroot]
    split
    · exact List.cons_prefix_cons.2 ⟨rfl, hparts⟩
    · exact hparts
  exact hall.map _

namespace ExclusionPolicy

variable {policy : ExclusionPolicy} {x y t : Text} {names more : List Text}

theorem excludes_iff :
    policy.excludes t ↔ (Name.basename t ∈ policy.names ∨ isPrivate (Name.basename t)) ∨
    t ∈ policy.names ∨
      (∃ dir ∈ Name.segments t, isPrivate dir ∨ dir ∈ policy.names) ∨ policy.isReserved t := by
  simp only [excludes, Bool.or_eq_true, List.contains_iff_mem, List.any_eq_true]
  rw [or_right_comm (a := Name.basename t ∈ policy.names), or_assoc, or_assoc]

theorem isReserved_append_slash (h : policy.isReserved x) (y : Text) :
    policy.isReserved (x ++ '/' :: y) := by
  rw [isReserved, List.any_eq_true] at h ⊢
  obtain ⟨p, hp, hstart⟩ := h
  refine ⟨p, hp, ?_⟩
  rw [Path.startsWith, List.isPrefixOf_iff_prefix] at hstart ⊢
  refine hstart.trans ?_
  rw [Name.trimRoot, Name.trimRoot, List.dropWhile_append]
  by_cases hnil : x.dropWhile Name.isSeparator = []
  · rw [hnil]
    exact List.nil_prefix
  · rw [if_neg (by simpa using hnil)]
    exact Path.components_append_slash hnil y

/-- That a directory is left out in a way that says nothing of what is below it. -/
def Lapses (policy : ExclusionPolicy) (dir : Text) : Prop :=
  dir ∈ policy.names ∨ Name.basename dir = [] ∧ [] ∈ policy.names ∨
    Name.parts dir = [dir] ∧ Name.isDrive dir ∧ isPrivate dir

theorem excludes_of_lapses (h : policy.Lapses t) : policy.excludes t := by
  rw [excludes_iff]
  rcases h with hself | ⟨hempty, hnil⟩ | ⟨hparts, -, hprivate⟩
  · exact .inr (.inl hself)
  · exact .inl (.inl (hempty ▸ hnil))
  · have hbasename : Name.basename t = t := by simp [Name.basename, hparts]
    exact .inl (.inr (hbasename.symm ▸ hprivate))

theorem excludes_append_slash (h : policy.excludes x) (y : Text) :
    policy.excludes (x ++ '/' :: y) ∨ policy.Lapses x := by
  rcases excludes_iff.1 h with hmark | hself | ⟨dir, hdir, hmark⟩ | hreserved
  · by_cases hempty : Name.basename x = []
    · cases hmark with
      | inl hname => exact .inr (.inr (.inl ⟨hempty, hempty ▸ hname⟩))
      | inr hprivate => simp [hempty, isPrivate] at hprivate
    by_cases hdrive : Name.parts x = [Name.basename x] ∧ Name.isDrive (Name.basename x)
    · obtain ⟨hparts, hdrive⟩ := hdrive
      have hself := Name.eq_basename_of_parts hparts
      rw [← hself] at hmark hparts hdrive
      cases hmark with
      | inl hname => exact .inr (.inl hname)
      | inr hprivate => exact .inr (.inr (.inr ⟨hparts, hdrive, hprivate⟩))
    · exact .inl
        (excludes_iff.2 (.inr (.inr (.inl ⟨_, Name.basename_mem_segments hempty hdrive,
        hmark.symm⟩))))
  · exact .inr (.inl hself)
  · exact .inl (excludes_iff.2 (.inr (.inr (.inl ⟨dir, Name.segments_subset hdir, hmark⟩))))
  · exact .inl (excludes_iff.2 (.inr (.inr (.inr (isReserved_append_slash hreserved y)))))

theorem excludesPath_append (hne : names ≠ []) (hmore : more ≠ [])
    (h : policy.excludesPath (.ofNames names)) :
    policy.excludesPath (.ofNames (names ++ more)) ∨ policy.Lapses (Path.ofNames names).text := by
  have hjoin : (Path.ofNames (names ++ more)).text = (Path.ofNames names).text ++ '/' ::
      (Path.ofNames more).text := by
    rw [Path.ofNames, Text.join_append _ hne hmore, List.append_assoc]
    rfl
  rw [excludesPath, hjoin]
  exact excludes_append_slash h _

/-- That the exclusion of a directory on the way to some names lapses. -/
def LapsesAbove (policy : ExclusionPolicy) (names : List Text) : Prop :=
  ∃ dirs more, names = dirs ++ more ∧ dirs ≠ [] ∧ more ≠ [] ∧ policy.Lapses (Path.ofNames dirs).text

theorem shown_iff (hne : names ≠ []) :
    (∀ a, a ≠ [] → a <+: names → policy.excludesPath (.ofNames a) = false) ↔
      policy.excludesPath (.ofNames names) = false ∧ ¬policy.LapsesAbove names := by
  constructor
  · intro hshown
    refine ⟨hshown names hne List.prefix_rfl, fun habove => ?_⟩
    obtain ⟨dirs, more, rfl, hdirs, -, hlapses⟩ := habove
    have hexcluded : policy.excludesPath (.ofNames dirs) = true := excludes_of_lapses hlapses
    simp [hshown dirs hdirs (List.prefix_append _ _)] at hexcluded
  · intro hend a ha hpre
    obtain ⟨hend, hnone⟩ := hend
    obtain ⟨more, rfl⟩ := hpre
    by_cases hmore : more = []
    · rwa [hmore, List.append_nil] at hend
    by_contra hexcluded
    cases excludesPath_append ha hmore (by simpa using hexcluded) with
    | inl hbelow => simp [hend] at hbelow
    | inr hlapses => exact hnone ⟨a, more, rfl, ha, hmore, hlapses⟩

end ExclusionPolicy

namespace Builder

open FileSystem

variable {fs : FileSystem} {c : Config} {names : List Text} {q : Place} {content : Bytes} {t : Nat}

/-- A file below the source is listed exactly if it is not left out itself and the exclusion of no
directory above it lapses. Exclusion is passed down but where it lapses; and where it does not, the
build of a single file passes over what the walk does not list. -/
theorem mem_files_iff_not_excluded (hwf : fs.WellFormed) (hlf : fs.LinkFree)
    (hs : c.source.isAbsolute) (hne : names ≠ []) (hvalid : ValidNames names)
    (hfile : fs.stat (c.source.join (.ofNames names)) = .ok (q, .file content t)) :
    (Path.ofNames names ∈ files ((ofConfig c).collect fs).1 ↔
      (ofConfig c).policy.excludesPath (.ofNames names) = false ∧
      ¬(ofConfig c).policy.LapsesAbove names) ∧
    (∀ dirs more, dirs ≠ [] → more ≠ [] → (ofConfig c).policy.excludesPath (.ofNames dirs) →
      (ofConfig c).policy.excludesPath (.ofNames (dirs ++ more)) ∨
        (ofConfig c).policy.Lapses (Path.ofNames dirs).text) ∧
    (¬(ofConfig c).policy.LapsesAbove names →
      Path.ofNames names ∉ files ((ofConfig c).collect fs).1 →
      (ofConfig c).buildFile fs (.ofNames names) = ⟨fs, [], .ok .skipped⟩) := by
  have hsource : (ofConfig c).source.isAbsolute := hs
  have hjoin := Path.join_ofNames c.source hne hvalid.plain
  rw [hjoin] at hfile
  have hleads : fs.Leads (ofConfig c).source c.source.place :=
    leads_of_stat_descend hwf hlf hs hne hvalid hfile
  obtain ⟨rfl, hat, hadmitted⟩ := (hleads.stat_descend_iff hwf hlf hne hvalid).1 hfile
  have htop := textRefusal?_top hsource hne hvalid hadmitted
  -- The walk tests every directory on the way, the policy alone only the path itself.
  have hlisted : Path.ofNames names ∈ files ((ofConfig c).collect fs).1 ↔
      (ofConfig c).policy.excludesPath (.ofNames names) = false ∧
      ¬(ofConfig c).policy.LapsesAbove names := by
    rw [mem_files_iff hwf hlf hleads, ← ExclusionPolicy.shown_iff hne]
    constructor
    · intro hex
      obtain ⟨names', heq, hl⟩ := hex
      rw [Path.ofNames_inj hvalid hl.valid hne hl.ne_nil heq]
      exact hl.shown
    · intro hshown
      exact ⟨names, rfl, hne, hvalid, htop, hadmitted, ⟨content, t, hat⟩, hshown⟩
  refine ⟨hlisted, fun dirs more hdirs hmore => ExclusionPolicy.excludesPath_append hdirs hmore,
    fun hnone hmissing => ?_⟩
  have hexcluded : (ofConfig c).policy.excludesPath (.ofNames names) = true := by
    by_contra hshown
    exact hmissing (hlisted.2 ⟨by simpa using hshown, hnone⟩)
  rw [buildFile, buildFileFaulty, plan, if_pos hexcluded]
  rfl

def draftsSite : FileSystem where
  nodes := [(["w".toList], .directory 0), (["w".toList, "blog".toList], .directory 0),
    (["w".toList, "blog".toList, "drafts".toList], .directory 0),
    (["w".toList, "blog".toList, "drafts".toList, "a".toList], .file [97] 1)]
  here := ["w".toList]
  clock := 5

def draftsSiteConfig : Config where
  root := some (.ofString "/w")
  configPath := .ofString "/w/_config.toml"
  source := .ofString "/w"
  destination := .ofString "/w/_site"
  layouts := .ofString "/w/_layouts"
  includes := .ofString "/w/_includes"
  exclude := ["blog/drafts".toList]

theorem draftsSite_stat :
    draftsSite.stat (draftsSiteConfig.source.join
      (.ofNames ["blog".toList, "drafts".toList, "a".toList])) =
      .ok (["w".toList, "blog".toList, "drafts".toList, "a".toList], .file [97] 1) := by
  cbv

/-- The draft is not listed, for the exclusion of its directory lapses. -/
theorem draftsSite_lapses :
    Path.ofNames ["blog".toList, "drafts".toList, "a".toList] ∉
      files ((ofConfig draftsSiteConfig).collect draftsSite).1 := by
  intro hlisted
  have hiff := (mem_files_iff_not_excluded (by decide) (by decide) rfl (by simp) (by decide)
    draftsSite_stat).1
  refine (hiff.1 hlisted).2 ⟨["blog".toList, "drafts".toList], ["a".toList], rfl, by simp, by simp,
    .inl ?_⟩
  decide

/-- The walk and the policy do not agree on every file of every site. -/
theorem not_always_agreed :
    ¬∀ (fs : FileSystem) (c : Config) (names : List Text) (q : Place) (content : Bytes) (t : Nat),
      fs.WellFormed →
      fs.LinkFree → c.source.isAbsolute → names ≠ [] → ValidNames names →
      fs.stat (c.source.join (.ofNames names)) = .ok (q, .file content t) →
        (Path.ofNames names ∈ files ((ofConfig c).collect fs).1 ↔
          (ofConfig c).policy.excludesPath (.ofNames names) = false) := by
  intro h
  have hshown : (ofConfig draftsSiteConfig).policy.excludesPath
      (.ofNames ["blog".toList, "drafts".toList, "a".toList]) =
      false := by cbv
  have hexcluded : (ofConfig draftsSiteConfig).policy.excludesPath
      (.ofNames ["blog".toList, "drafts".toList]) = true := by
    cbv
  have hlisted := (h draftsSite draftsSiteConfig _ _ _ _ (by decide) (by decide) rfl (by simp)
    (by decide) draftsSite_stat).2 hshown
  have hstat : draftsSite.stat ((Path.ofString "/w").join ⟨[]⟩) =
      .ok (["w".toList], .directory 0) := by cbv
  obtain ⟨names, n, hne, hvalid, hpath, -, -, hall⟩ :=
    (SourceEntry.mem_collect_iff (by decide) rfl hstat).1 (mem_files.1 hlisted)
  have hnames := Path.ofNames_inj (by decide) hvalid (by simp) hne hpath
  have hfalse := hall ["blog".toList, "drafts".toList] (by simp)
    (hnames ▸ List.prefix_append _ ["a".toList])
  exact absurd (hexcluded.symm.trans hfalse) (by simp)

end Builder
end StaticSite
