import Mathlib
import StaticSite.Proofs.Passes
import StaticSite.Proofs.PathRests

/-! How the output is hidden from the walk. The destination is left out by its path below the
source, and so is everything in it; but that is a comparison of components, and does not see where a
path leads that goes up again, or that a name begins with a backslash. -/
namespace StaticSite

namespace FileSystem

variable {fs : FileSystem} {p q d s : Place} {n : Node} {names : List Text} {path : Path}

/-! ### The text of a place -/

/-- How many bytes names take in a path, each with a slash before it. -/
def weight : List Text → Nat
  | [] => 0
  | name :: names => Text.byteLength name + 1 + weight names

@[simp] theorem weight_nil : weight [] = 0 := rfl

theorem weight_cons (name : Text) (names : List Text) :
    weight (name :: names) = Text.byteLength name + 1 + weight names := rfl

theorem weight_singleton (name : Text) : weight [name] = Text.byteLength name + 1 := rfl

theorem weight_append (a b : List Text) : weight (a ++ b) = weight a + weight b := by
  induction a with
  | nil => simp
  | cons name a ih =>
    rw [List.cons_append, weight_cons, weight_cons, ih]
    omega

theorem byteLength_join (hne : names ≠ []) :
    Text.byteLength ('/' :: Text.join ['/'] names) = weight names := by
  have hslash : Text.byteLength ['/'] = 1 := by decide
  have hcons (t : Text) : Text.byteLength ('/' :: t) = 1 + Text.byteLength t := by
    rw [← List.singleton_append, Text.byteLength_append, hslash]
  induction names with
  | nil => exact absurd rfl hne
  | cons name names ih =>
    by_cases hnil : names = []
    · subst hnil
      rw [hcons, weight_singleton, Text.join]
      omega
    · have hrest := ih hnil
      rw [hcons] at hrest
      rw [hcons, Text.join_cons _ _ hnil, Text.byteLength_append, Text.byteLength_append, hslash,
        weight_cons]
      omega

theorem weight_filter_le (keep : Text → Bool) (names : List Text) :
    weight (names.filter keep) ≤ weight names := by
  induction names with
  | nil => simp
  | cons name names ih =>
    rw [List.filter_cons, weight_cons]
    split
    · rw [weight_cons]
      omega
    · omega

theorem weight_steps_le (hp : path.isAbsolute) : weight path.steps ≤ Text.byteLength path.text := by
  obtain ⟨t, ht, hpieces⟩ := Path.pieces_of_absolute hp
  have hsteps : path.steps = (Text.pieces t).filter (· ≠ []) := by
    rw [Path.steps_eq, hpieces]
    rfl
  calc weight path.steps ≤ weight (Text.pieces t) := hsteps ▸ weight_filter_le _ _
    _ = Text.byteLength ('/' :: Text.join ['/'] (Text.pieces t)) :=
      (byteLength_join (Text.splitBy_ne_nil _ t)).symm
    _ = Text.byteLength path.text := by rw [Text.join_pieces, ht]

theorem of_route (h : fs.route p names = .ok (.found q n)) :
    (∀ m ∈ q, m ∈ p ∨ m ∈ names ∧ Fits m) ∧ weight q ≤ weight p + weight names := by
  induction names generalizing p with
  | nil =>
    simp only [route_nil, Except.ok.injEq, Spot.found.injEq] at h
    rw [← h.1]
    exact ⟨fun m hm => .inl hm, by simp⟩
  | cons name rest ih =>
    rw [weight_cons]
    rw [route_step] at h
    -- Two dots take a name away; every other step adds one that fits.
    split at h
    · obtain ⟨hnames, hweight⟩ := ih h
      exact ⟨fun m hm => (hnames m hm).imp_right fun hr => ⟨List.mem_cons_of_mem _ hr.1, hr.2⟩,
        by omega⟩
    split at h
    · obtain ⟨hnames, hweight⟩ := ih h
      have hup : weight p.dropLast ≤ weight p := by
        rcases List.eq_nil_or_concat' p with rfl | ⟨r, m, rfl⟩
        · simp
        · rw [List.dropLast_concat, weight_append]
          omega
      refine ⟨fun m hm => ?_, by omega⟩
      exact (hnames m hm).imp List.mem_of_mem_dropLast fun hr => ⟨List.mem_cons_of_mem _ hr.1, hr.2⟩
    split at h
    case isFalse => simp at h
    next hfits =>
      have hdown (m : Text) (hm : m ∈ p ++ [name]) : m ∈ p ∨ m ∈ name :: rest ∧ Fits m := by
        refine (List.mem_append.1 hm).imp_right fun hlast => ?_
        rw [List.mem_singleton.1 hlast]
        exact ⟨List.mem_cons_self, hfits⟩
      have hstop (hq : p ++ [name] = q) : (∀ m ∈ q, m ∈ p ∨ m ∈ name :: rest ∧ Fits m) ∧
          weight q ≤ weight p + (Text.byteLength name + 1 + weight rest) := by
        rw [← hq, weight_append, weight_singleton]
        exact ⟨hdown, by omega⟩
      split at h
      · split at h <;> simp at h
      · obtain ⟨hnames, hweight⟩ := ih h
        rw [weight_append, weight_singleton] at hweight
        refine ⟨fun m hm => ?_, by omega⟩
        exact (hnames m hm).elim (hdown m) fun hr => .inr ⟨List.mem_cons_of_mem _ hr.1, hr.2⟩
      · split at h
        · simp only [Except.ok.injEq, Spot.found.injEq] at h
          exact hstop h.1
        · simp at h

theorem Leads.speakable (h : Leads fs path d) (hnone : textRefusal? path = none) : Speakable d := by
  obtain ⟨t, ht⟩ := h.route
  obtain ⟨hnames, hweight⟩ := of_route ht
  have hstep (m : Text) (hm : m ∈ d) : m ∈ path.steps ∧ Fits m :=
    (hnames m hm).resolve_left (by simp)
  refine ⟨?_, fun m hm => (hstep m hm).2⟩
  obtain ⟨hnul, -, hshort⟩ := textRefusal?_eq_none.1 hnone
  have hslash : Char.ofNat 0 ≠ '/' := by decide
  refine textRefusal?_eq_none.2 ⟨?_, by simp [Path.text_ofPlace], ?_⟩
  · rw [Path.text_ofPlace]
    simp only [List.contains_eq_mem, decide_eq_false_iff_not, List.mem_cons, not_or] at hnul ⊢
    refine ⟨hslash, fun hin => hnul ?_⟩
    -- A character of a name is one of the piece of the path that the name is.
    obtain ⟨m, hm, hc⟩ := (Text.mem_join_iff (by simp)).1 hin
    have hpiece : m ∈ Text.pieces path.text := (List.mem_filter.1 (hstep m hm).1).1
    rw [← Text.join_pieces path.text]
    exact (Text.mem_join_iff (by simp)).2 ⟨m, hpiece, hc⟩
  · rw [Path.text_ofPlace]
    by_cases hd : d = []
    · subst hd
      decide
    · have hsteps := weight_steps_le h.absolute
      rw [weight_nil] at hweight
      rw [byteLength_join hd]
      omega

theorem leads_ofPlace (hwf : fs.WellFormed) (hlf : fs.LinkFree) {t : Nat}
    (hat : fs.at? s = some (.directory t)) (hfits : ∀ m ∈ s, Fits m) : fs.Leads (.ofPlace s) s := by
  have hvalid := hwf.validNames hat
  refine ⟨Path.isAbsolute_ofPlace s, t, ?_⟩
  rw [Path.steps_ofPlace hvalid.plain]
  exact (route_eq_found hwf hlf (at?_nil fs) hvalid).2 ⟨rfl, hat, hfits⟩

end FileSystem

theorem Path.foldl_follow_of_no_up {names : List Text} (h : ['.', '.'] ∉ names) (p : Place) :
    names.foldl follow p = p ++ names.filter (· ≠ ['.']) := by
  induction names generalizing p with
  | nil => simp
  | cons name names ih =>
    rw [List.mem_cons, not_or] at h
    obtain ⟨hname, hrest⟩ := h
    rw [List.foldl_cons, ih hrest, follow, if_neg (Ne.symm hname)]
    by_cases hdot : name = ['.']
    · simp [hdot]
    · simp [hdot]

theorem Path.components_of_no_up {p : Path} (hp : p.isAbsolute) (h : ['.', '.'] ∉ p.steps) :
    p.components = .root :: p.place.map Component.ofName := by
  rw [components_of_absolute hp, place, foldl_follow_of_no_up h, List.nil_append]

namespace ExclusionPolicy

variable {policy : ExclusionPolicy}

theorem excludesPath_of_reserved {rest : Path} {name : Text} {names : List Text}
    (hrest : rest ∈ policy.reserved) (hvalid : ValidNames (name :: names))
    (hcomponents : rest.components = (name :: names).map Path.Component.ofName)
    (hslash : name.head? ≠ some '\\') : policy.excludesPath (.ofNames (name :: names)) = true := by
  have htrim : Name.trimRoot (Path.ofNames (name :: names)).text =
      (Path.ofNames (name :: names)).text := by
    have hname := hvalid name List.mem_cons_self
    obtain ⟨c, cs, rfl⟩ := List.exists_cons_of_ne_nil hname.ne_nil
    have hsep : Name.isSeparator c = false := by
      have hc : c ≠ '/' := fun hc => hname.noSlash (hc ▸ List.mem_cons_self)
      have hc' : c ≠ '\\' := by simpa using hslash
      simp [Name.isSeparator, hc, hc']
    have hhead : ∃ tail, (Path.ofNames ((c :: cs) :: names)).text = c :: tail := by
      cases names with
      | nil => exact ⟨cs, rfl⟩
      | cons name names => exact ⟨_, rfl⟩
    obtain ⟨tail, htail⟩ := hhead
    rw [Name.trimRoot, htail, List.dropWhile_cons_of_neg (by simp [hsep])]
  have hreserved : policy.isReserved (Path.ofNames (name :: names)).text = true := by
    rw [isReserved, List.any_eq_true]
    refine ⟨rest, hrest, ?_⟩
    rw [htrim, Path.startsWith, List.isPrefixOf_iff_prefix, hcomponents]
    exact Path.components_ofNames (by simp) hvalid.plain ▸ List.prefix_rfl
  rw [excludesPath, excludes, hreserved, Bool.or_true]

theorem mem_reserved_ofConfig {c : Config} {rest : Path}
    (h : c.destination.stripPrefix? c.source = some rest) (hne : rest.components ≠ []) :
    rest ∈ (ofConfig c).reserved := by
  refine List.mem_filterMap.2 ⟨c.destination, by simp, ?_⟩
  have htext : rest.text ≠ [] := by
    intro hnil
    have hrest : rest = ⟨[]⟩ := Path.ext_text hnil
    rw [hrest] at hne
    exact hne rfl
  rw [below?, h]
  simp [htext]

end ExclusionPolicy

namespace Builder

open FileSystem

variable {b : Builder} {c : Config} {cli : CommandLine} {start cur : FileSystem} {d : Place}
  {t : Nat} {names : List Text} {e : SourceEntry}

theorem place_of_mem_collect (hwf : cur.WellFormed) (hs : b.source.isAbsolute)
    (he : e ∈ (b.collect cur).1) :
    ∃ names, names ≠ [] ∧ (b.source.join e.path).place = b.source.place ++ names ∧
      ∀ a, a ≠ [] → a <+: names → b.policy.excludesPath (.ofNames a) = false := by
  obtain ⟨place, t, hstat⟩ := SourceEntry.stat_of_mem_collect he
  obtain ⟨names, n, hne, hvalid, hpath, -, -, hshown⟩ :=
    (SourceEntry.mem_collect_iff hwf hs hstat).1 he
  exact ⟨names, hne, by rw [hpath, Path.place_join hs hne hvalid], hshown⟩

theorem source_eq_ofPlace (hstart : start.WellFormed) (hc : Config.Loaded start c) :
    c.source = .ofPlace c.source.place ∧ ValidNames c.source.place := by
  obtain ⟨s, u, hs, hstat⟩ := hc.source
  have hvalid := hstart.validNames (hstart.at?_of_stat hc.isAbsolute_source hstat).1
  have hplace : c.source.place = s := by
    rw [hs, Path.place, Path.steps_ofPlace hvalid.plain, Path.foldl_follow_valid _ hvalid,
      List.nil_append]
  rw [hplace]
  exact ⟨hs, hvalid⟩

theorem components_source (hstart : start.WellFormed) (hc : Config.Loaded start c) :
    c.source.components = .root :: c.source.place.map Path.Component.ofName := by
  obtain ⟨hsource, hvalid⟩ := source_eq_ofPlace hstart hc
  exact (congrArg Path.components hsource).trans (Path.components_ofPlace hvalid.plain)

theorem not_above_of_no_up (hstart : start.WellFormed) (hc : Config.Loaded start c)
    (hup : ['.', '.'] ∉ c.destination.steps) : ¬c.destination.place <+: c.source.place := by
  intro habove
  have hapart := hc.apart
  rw [Path.startsWith, components_source hstart hc,
    Path.components_of_no_up hc.destination.isAbsolute hup] at hapart
  have hpre : Component.root :: c.destination.place.map Path.Component.ofName <+:
      .root :: c.source.place.map Path.Component.ofName :=
    List.cons_prefix_cons.2 ⟨rfl, habove.map _⟩
  rw [List.isPrefixOf_iff_prefix.2 hpre] at hapart
  exact absurd hapart (by simp)

theorem excludesPath_of_no_up {name : Text} (hstart : start.WellFormed) (hc : Config.Loaded start c)
    (hup : ['.', '.'] ∉ c.destination.steps)
    (hplace : c.destination.place = c.source.place ++ name :: names)
    (hvalid : ValidNames (name :: names)) (hslash : name.head? ≠ some '\\') :
    (ofConfig c).policy.excludesPath (.ofNames (name :: names)) = true := by
  have hdest := Path.components_of_no_up hc.destination.isAbsolute hup
  rw [hplace, List.map_append, ← List.cons_append, ← components_source hstart hc] at hdest
  have hbelow : c.source.components <+: c.destination.components := by
    rw [hdest]
    exact List.prefix_append _ _
  obtain ⟨rest, hstrip, hne, hrest⟩ := Path.exists_stripPrefix? hbelow (by simp [hdest])
  rw [hdest, List.append_cancel_left_eq] at hrest
  exact ExclusionPolicy.excludesPath_of_reserved (ExclusionPolicy.mem_reserved_ofConfig hstrip hne)
    hvalid hrest.symm hslash

theorem destination_mem_collect (hstart : start.WellFormed) (hload : Config.load start cli = .ok c)
    (hwf : cur.WellFormed) (hlf : cur.LinkFree)
    (hdest : cur.stat c.destination = .ok (d, .directory t)) (hne : names ≠ [])
    (hd : d = c.source.place ++ names)
    (hshown : ∀ a, a ≠ [] → a <+: names → (ofConfig c).policy.excludesPath (.ofNames a) = false) :
    ⟨.ofNames names, .directory⟩ ∈ ((ofConfig c).collect cur).1 := by
  have hc := Config.loaded_of_load hstart hload
  have hleads := Leads.of_stat hlf hc.destination.isAbsolute hdest
  have hspeak : Speakable d := hleads.speakable (find_of_ok (stat_eq_ok.1 hdest)).1
  have hat := (hwf.at?_of_stat hc.destination.isAbsolute hdest).1
  rw [hd] at hat hspeak
  obtain ⟨hnone, hfits⟩ := hspeak
  obtain ⟨hsplain, hvalid⟩ := (hwf.validNames hat).of_append
  obtain ⟨u, hu⟩ := hwf.directory_above hne hat
  -- The source is its own place, so what is below it can be looked up as the place can.
  have hsource := (source_eq_ofPlace hstart hc).1
  have hs : cur.Leads (ofConfig c).source c.source.place := by
    have hofPlace := leads_ofPlace hwf hlf hu fun m hm => hfits m (List.mem_append_left _ hm)
    rwa [← hsource] at hofPlace
  have hdescend : (ofConfig c).source.descend names = .ofPlace (c.source.place ++ names) := by
    rw [Path.ofPlace_eq_descend (hsplain.append hvalid).plain, Path.descend_append,
      ← Path.ofPlace_eq_descend hsplain.plain, ← hsource]
    rfl
  refine mem_collect_of_directory hwf hlf hs hne hvalid ⟨?_,
    fun m hm => hfits m (List.mem_append_right _ hm)⟩ hat hshown
  rw [hdescend]
  exact hnone

/-- That the walk comes neither to a place nor to anything below it. -/
def Hidden (b : Builder) (cur : FileSystem) (d : Place) : Prop :=
  ∀ e ∈ (b.collect cur).1, ¬d <+: (b.source.join e.path).place

theorem hidden_iff (hstart : start.WellFormed) (hload : Config.load start cli = .ok c)
    (hwf : cur.WellFormed) (hlf : cur.LinkFree)
    (hdest : cur.stat c.destination = .ok (d, .directory t)) :
    (ofConfig c).Hidden cur d ↔
      (d <+: c.source.place → ((ofConfig c).collect cur).1 = []) ∧
        ∀ names, names ≠ [] → d = c.source.place ++ names →
          ∃ a, a ≠ [] ∧ a <+: names ∧ (ofConfig c).policy.excludesPath (.ofNames a) = true := by
  have hc := Config.loaded_of_load hstart hload
  have hs : (ofConfig c).source.isAbsolute := hc.isAbsolute_source
  have hvalid : ValidNames d := hwf.validNames (hwf.at?_of_stat hc.destination.isAbsolute hdest).1
  constructor
  · intro hhidden
    refine ⟨fun habove => List.eq_nil_iff_forall_not_mem.2 fun e he => ?_, fun names hne hd => ?_⟩
    · obtain ⟨names, -, hplace, -⟩ := place_of_mem_collect hwf hs he
      exact hhidden e he (hplace ▸ habove.trans (List.prefix_append _ names))
    · by_contra hnone
      have hmem := destination_mem_collect hstart hload hwf hlf hdest hne hd fun a ha hpre => by
        by_contra htrue
        exact hnone ⟨a, ha, hpre, by simpa using htrue⟩
      refine hhidden _ hmem ?_
      show d <+: (c.source.join (.ofNames names)).place
      rw [Path.place_join hc.isAbsolute_source hne (hd ▸ hvalid).of_append.2, hd]
  · intro hcases e he hpre
    obtain ⟨habove, hexcluded⟩ := hcases
    obtain ⟨names, -, hplace, hshown⟩ := place_of_mem_collect hwf hs he
    have hempty (h : d <+: c.source.place) : False := by
      rw [habove h] at he
      simp at he
    rw [hplace] at hpre
    cases List.prefix_or_prefix_of_prefix hpre (List.prefix_append _ names) with
    | inl hup => exact hempty hup
    | inr hdown =>
      obtain ⟨more, rfl⟩ := hdown
      by_cases hmore : more = []
      · subst hmore
        exact hempty (by simp [ofConfig])
      · obtain ⟨a, ha, hle, htrue⟩ := hexcluded more hmore rfl
        rw [List.prefix_append_right_inj] at hpre
        simp [hshown a ha (hle.trans hpre)] at htrue

theorem hidden_of_no_up (hstart : start.WellFormed) (hload : Config.load start cli = .ok c)
    (hwf : cur.WellFormed) (hlf : cur.LinkFree)
    (hdest : cur.stat c.destination = .ok (d, .directory t))
    (hup : ['.', '.'] ∉ c.destination.steps)
    (hslash : ∀ name names, d = c.source.place ++ name :: names → name.head? ≠ some '\\') :
    (ofConfig c).Hidden cur d := by
  have hc := Config.loaded_of_load hstart hload
  have hvalid : ValidNames d := hwf.validNames (hwf.at?_of_stat hc.destination.isAbsolute hdest).1
  have hplace : c.destination.place = d :=
    (Leads.of_stat hlf hc.destination.isAbsolute hdest).place_eq
  refine (hidden_iff hstart hload hwf hlf hdest).2 ⟨fun habove => ?_, fun names hne hd => ?_⟩
  · exact absurd (hplace ▸ habove) (not_above_of_no_up hstart hc hup)
  · obtain ⟨name, more, rfl⟩ := List.exists_cons_of_ne_nil hne
    have hbelow := excludesPath_of_no_up hstart hc hup (hplace.trans hd) (hd ▸ hvalid).of_append.2
      (hslash name more hd)
    exact ⟨name :: more, hne, List.prefix_rfl, hbelow⟩

/-- The walk does not come to the destination exactly if, where the destination is the source or
above it, there are no entries, and, where it is below the source, it is left out or something on
the way to it is. That is so if its path does not go up, and its first name below the source does
not begin with a backslash. -/
theorem output_hidden_iff (hstart : start.WellFormed) (hload : Config.load start cli = .ok c)
    (hwf : cur.WellFormed) (hlf : cur.LinkFree)
    (hdest : cur.stat c.destination = .ok (d, .directory t)) :
    ((ofConfig c).Hidden cur d ↔
      (d <+: c.source.place → ((ofConfig c).collect cur).1 = []) ∧
        ∀ names, names ≠ [] → d = c.source.place ++ names →
          ∃ a, a ≠ [] ∧ a <+: names ∧ (ofConfig c).policy.excludesPath (.ofNames a) = true) ∧
    (['.', '.'] ∉ c.destination.steps →
      (∀ name names, d = c.source.place ++ name :: names → name.head? ≠ some '\\') →
      (ofConfig c).Hidden cur d) :=
  ⟨hidden_iff hstart hload hwf hlf hdest, hidden_of_no_up hstart hload hwf hlf hdest⟩

def bareSite : FileSystem where
  nodes := [(["w".toList], .directory 0), (["w".toList, "a".toList], .file [97] 1)]
  here := ["w".toList]
  clock := 5

def bareSiteConfig (destination : Path) : Config where
  root := some (.ofString "/w")
  configPath := .ofString "/w/_config.toml"
  source := .ofString "/w"
  destination := destination
  layouts := .ofString "/w/_layouts"
  includes := .ofString "/w/_includes"

theorem bareSite_load_deep :
    Config.load bareSite ⟨none, .ofString "_config.toml", none, some (.ofString "out/./deep"),
      .build false⟩ =
      .ok (bareSiteConfig (.ofString "/w/out/./deep")) := by
  cbv

theorem bareSite_load_detour :
    Config.load bareSite ⟨none, .ofString "_config.toml", none, some (.ofString "new/../out"),
      .build false⟩ =
      .ok (bareSiteConfig (.ofString "/w/new/../out")) := by
  cbv

def bareSiteDeep : FileSystem where
  nodes := (["w".toList, "out".toList, "deep".toList], .directory 6) ::
    (["w".toList, "out".toList], .directory 5) :: bareSite.nodes
  here := ["w".toList]
  clock := 7
  changed := [(["w".toList, "out".toList], 6), (["w".toList], 5)]

/-- A dot in the path of the destination does not bring the output to light. -/
theorem bareSiteDeep_hidden :
    (ofConfig (bareSiteConfig (.ofString "/w/out/./deep"))).Hidden bareSiteDeep
      ["w".toList, "out".toList, "deep".toList] := by
  have hdest : bareSiteDeep.stat (.ofString "/w/out/./deep") =
      .ok (["w".toList, "out".toList, "deep".toList], .directory 6) := by cbv
  refine (output_hidden_iff (by decide) bareSite_load_deep (by decide) (by decide) hdest).2
    (by decide) ?_
  intro name names hd
  have hsource : (bareSiteConfig (.ofString "/w/out/./deep")).source.place = ["w".toList] := by cbv
  rw [hsource, List.singleton_append, List.cons.injEq, List.cons.injEq] at hd
  rw [← hd.2.1]
  decide

def bareSiteDetour : FileSystem where
  nodes := (["w".toList, "out".toList], .directory 6) ::
    (["w".toList, "new".toList], .directory 5) :: bareSite.nodes
  here := ["w".toList]
  clock := 7
  changed := [(["w".toList], 6), (["w".toList], 5)]

theorem bareSite_makeAll_detour :
    bareSite.makeAll (.ofString "/w/new/../out") = (bareSiteDetour, none) := by cbv

/-- Not every destination is hidden once it is made. -/
theorem output_not_always_hidden :
    ¬∀ (start cur : FileSystem) (cli : CommandLine) (c : Config) (d : Place) (t : Nat),
      start.WellFormed →
      start.LinkFree → Config.load start cli = .ok c → start.makeAll c.destination = (cur, none) →
      cur.stat c.destination = .ok (d, .directory t) → (ofConfig c).Hidden cur d := by
  intro h
  have hdest : bareSiteDetour.stat (.ofString "/w/new/../out") =
      .ok (["w".toList, "out".toList], .directory 6) := by cbv
  have hhidden := h bareSite bareSiteDetour _ _ _ _ (by decide) (by decide) bareSite_load_detour
    bareSite_makeAll_detour hdest
  have hplace : ((Path.ofString "/w").join (.ofNames ["out".toList])).place =
      ["w".toList, "out".toList] := by cbv
  have hshown : (ofConfig (bareSiteConfig (.ofString "/w/new/../out"))).policy.excludesPath
      (.ofNames ["out".toList]) =
      false := by cbv
  have hmem : ⟨.ofNames ["out".toList], .directory⟩ ∈
      ((ofConfig (bareSiteConfig (.ofString "/w/new/../out"))).collect bareSiteDetour).1 := by
    refine destination_mem_collect (by decide) bareSite_load_detour (by decide) (by decide) hdest
      (by simp) rfl ?_
    intro a ha hpre
    rcases List.prefix_cons_iff.1 hpre with rfl | ⟨rest, rfl, hrest⟩
    · exact absurd rfl ha
    · rw [List.prefix_nil.1 hrest]
      exact hshown
  refine hhidden _ hmem ?_
  show _ <+: ((Path.ofString "/w").join (.ofNames ["out".toList])).place
  rw [hplace]

end Builder
end StaticSite
