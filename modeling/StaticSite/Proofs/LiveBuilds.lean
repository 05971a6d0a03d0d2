import Mathlib
import StaticSite.Proofs.Keeping
import StaticSite.Proofs.Loading
import StaticSite.Proofs.Subscriptions

/-! What is rebuilt while the source is watched, against what a build of the whole tree would build.
The two agree but for links: the walk lists a linked directory and does not go into it, and the
handler subscribes to all that the walk lists. -/
namespace StaticSite

namespace FileSystem

variable {fs : FileSystem} {p q : Place} {n : Node} {names : List Text}

/-- A lookup through some names first goes to a directory, and from there on, wherever it is to
go. -/
theorem WellFormed.walk_split (hwf : fs.WellFormed) {links t : Nat} {a b : List Text} {s : Spot}
    (hp : fs.at? p = some (.directory t)) (hb : b ≠ [])
    (hw : fs.walk true links p (a ++ b) = .ok s) :
    ∃ r u k, fs.at? r = some (.directory u) ∧
      ∀ more, more ≠ [] → fs.walk true links p (a ++ more) = fs.walk true k r more := by
  generalize hnames : a ++ b = names at hw
  -- The induction follows the lookup; as long as names of `a` are left, all lookups take the same
  -- step.
  fun_induction FileSystem.walk fs true links p names generalizing a t with
  | case1 =>
    rw [List.append_eq_nil_iff] at hnames
    exact absurd hnames.2 hb
  | case2 links p rest ih =>
    cases a with
    | nil => exact ⟨p, t, links, hp, fun _ _ => rfl⟩
    | cons name a =>
      obtain ⟨rfl, hrest⟩ := List.cons.inj hnames
      obtain ⟨r, u, k, hr, hall⟩ := ih hp hrest hw
      refine ⟨r, u, k, hr, fun more hmore => ?_⟩
      rw [List.cons_append, FileSystem.walk, if_pos rfl, hall more hmore]
  | case3 links p rest hdot ih =>
    cases a with
    | nil => exact ⟨p, t, links, hp, fun _ _ => rfl⟩
    | cons name a =>
      obtain ⟨rfl, hrest⟩ := List.cons.inj hnames
      obtain ⟨v, hv⟩ := hwf.directory_dropLast hp
      obtain ⟨r, u, k, hr, hall⟩ := ih hv hrest hw
      refine ⟨r, u, k, hr, fun more hmore => ?_⟩
      rw [List.cons_append, FileSystem.walk, if_neg hdot, if_pos rfl, hall more hmore]
  | case4 => simp at hw
  | case5 links p name hdot hdots hlen hat =>
    cases a with
    | nil => exact ⟨p, t, links, hp, fun _ _ => rfl⟩
    | cons first a =>
      obtain ⟨-, hrest⟩ := List.cons.inj hnames
      exact absurd (List.append_eq_nil_iff.1 hrest).2 hb
  | case6 => simp at hw
  | case7 links p name rest hdot hdots hlen v hat ih =>
    cases a with
    | nil => exact ⟨p, t, links, hp, fun _ _ => rfl⟩
    | cons first a =>
      obtain ⟨rfl, hrest⟩ := List.cons.inj hnames
      obtain ⟨r, u, k, hr, hall⟩ := ih hat hrest hw
      refine ⟨r, u, k, hr, fun more hmore => ?_⟩
      rw [List.cons_append, FileSystem.walk, if_neg hdot, if_neg hdots, if_neg hlen, hat]
      exact hall more hmore
  | case8 links p name hdot hdots hlen c v hat =>
    cases a with
    | nil => exact ⟨p, t, links, hp, fun _ _ => rfl⟩
    | cons first a =>
      obtain ⟨-, hrest⟩ := List.cons.inj hnames
      exact absurd (List.append_eq_nil_iff.1 hrest).2 hb
  | case9 => simp at hw
  | case10 links p name rest hdot hdots hlen target hat hlast => simp at hlast
  | case11 => simp at hw
  | case12 => simp at hw
  | case13 =>
    rename_i p name rest hdot hdots hlen target hat hlast links goal hgoal more' ih
    cases a with
    | nil => exact ⟨p, t, links + 1, hp, fun _ _ => rfl⟩
    | cons first a =>
      obtain ⟨rfl, hrest⟩ := List.cons.inj hnames
      obtain ⟨v, hv⟩ := directory_start hp goal.isAbsolute
      have hrest : a ++ b = rest := hrest
      obtain ⟨r, u, k, hr, hall⟩ := ih hv
        (show (more' ++ a) ++ b = _ by rw [List.append_assoc, hrest]) hw
      refine ⟨r, u, k, hr, fun more hmore => ?_⟩
      rw [List.cons_append, FileSystem.walk, if_neg hdot, if_neg hdots, if_neg hlen, hat]
      simp only [Bool.not_true, Bool.and_false, Bool.false_eq_true, if_false]
      rw [if_neg hgoal, ← hall more hmore, List.append_assoc]
      rfl

theorem at?_of_walk_unlinked {links t : Nat} (hp : fs.at? p = some (.directory t))
    (hnames : ValidNames names)
    (hlinks : ∀ dirs more, names = dirs ++ more → dirs ≠ [] → more ≠ [] →
      ∀ target, fs.at? (p ++ dirs) ≠ some (.link target))
    (hw : fs.walk true links p names = .ok (.found q n)) : ∃ m, fs.at? (p ++ names) = some m := by
  induction names generalizing p t with
  | nil => exact ⟨_, by rwa [List.append_nil]⟩
  | cons name rest ih =>
    obtain ⟨hname, hrest⟩ := hnames.of_cons
    have hcons : p ++ name :: rest = (p ++ [name]) ++ rest := by simp
    rw [hcons]
    by_cases hlast : rest = []
    · subst hlast
      rw [List.append_nil]
      rw [FileSystem.walk, if_neg hname.ne_dot, if_neg hname.ne_dots] at hw
      split at hw
      · cases hw
      cases hat : fs.at? (p ++ [name]) with
      | none => simp [hat] at hw
      | some m => exact ⟨m, rfl⟩
    · rw [FileSystem.walk, if_neg hname.ne_dot, if_neg hname.ne_dots] at hw
      split at hw
      · cases hw
      cases hat : fs.at? (p ++ [name]) with
      | none => simp [hat] at hw
      | some m =>
        cases m with
        | file c u => simp [hat] at hw
        | link target => exact absurd hat (hlinks [name] rest rfl (by simp) hlast target)
        | directory u =>
          rw [hat] at hw
          refine ih hat hrest (fun dirs more heq hdirs hmore target => ?_) hw
          have := hlinks (name :: dirs) more (by rw [heq, List.cons_append]) (by simp) hmore target
          rwa [List.append_assoc]

end FileSystem

open FileSystem

namespace Builder

variable {b : Builder} {fs : FileSystem} {names : List Text}

theorem listed_iff_of_open (hwf : fs.WellFormed) (hs : b.source.isAbsolute) (hne : names ≠ [])
    (h : Open b names) (hkind : SourceEntry.kindAt? fs (b.source.descend names) = some .file) :
    ∃ place t, fs.stat (b.source.join ⟨[]⟩) = .ok (place, .directory t) ∧
      (.ofNames names ∈ files (b.collect fs).1 ↔
        ∀ dirs more, names = dirs ++ more → dirs ≠ [] → more ≠ [] → ∀ target,
          fs.at? (place ++ dirs) ≠ some (.link target)) := by
  obtain ⟨q, content, t, hstat⟩ := SourceEntry.kindAt?_eq_file.1 hkind
  obtain ⟨hnone, hwalk⟩ := find_of_ok (stat_eq_ok.1 hstat)
  have habs := Path.isAbsolute_descend hs names
  have hroot : fs.at? [] = some (.directory 0) := if_pos rfl
  rw [if_pos habs, lookupNames_descend hs hne h.valid.plain] at hwalk
  obtain ⟨place, u, k, hplace, hall⟩ := hwf.walk_split hroot hne hwalk
  -- The source itself is looked up with a dot after its names.
  have htop : fs.stat (b.source.join ⟨[]⟩) = .ok (place, .directory u) := by
    have hnone' := textRefusal?_top_of_descend hs hne h.valid hnone
    have hnames : lookupNames (b.source.join ⟨[]⟩) = b.source.steps ++ [['.']] := by
      have hslash : (b.source.join ⟨[]⟩).wantsDirectory := by
        rw [Path.wantsDirectory, Path.text_join_of_relative hs rfl, List.append_nil, Path.stemText]
        split
        next hlast => simpa using hlast
        · simp
      rw [lookupNames, if_pos hslash, steps_top hs]
    rw [stat_eq_ok, find_eq, hnone', if_pos (Path.isAbsolute_join_left hs), hnames]
    simp only
    rw [hall _ (by simp), FileSystem.walk, if_pos rfl, FileSystem.walk, hplace]
    rfl
  refine ⟨place, u, htop, ?_⟩
  rw [mem_files]
  constructor
  · intro hmem dirs more heq hdirs hmore target hlink
    obtain ⟨names', m, hne', hvalid', hpath, hm, -, -⟩ :=
      (SourceEntry.mem_collect_iff hwf hs htop).1 hmem
    obtain rfl := Path.ofNames_inj h.valid hvalid' hne hne' hpath
    rw [heq, ← List.append_assoc] at hm
    obtain ⟨v, hv⟩ := hwf.directory_above hmore hm
    rw [hlink] at hv
    cases hv
  · intro hlinks
    rw [hall names hne] at hwalk
    obtain ⟨m, hm⟩ := at?_of_walk_unlinked hplace h.valid hlinks hwalk
    exact (SourceEntry.mem_collect_iff hwf hs htop).2 ⟨names, m, hne, h.valid, rfl, hm, hkind,
      h.shown⟩

end Builder

namespace ChangeHandler

open Builder

variable {h : ChangeHandler} {fs : FileSystem} {s : WatchState} {d p rel : Path} {ps : List Path}
  {created : Bool} {names : List Text}

/-- That an event may name a path: the name of something in a directory that is subscribed to. -/
def Reported (s : WatchState) (p : Path) : Prop :=
  ∃ d ∈ s.dirs, ∃ name, ValidName name ∧ p = d.joinText name

/-- That all subscriptions are to open directories below the source, or to the source. -/
def Sound (h : ChangeHandler) (s : WatchState) : Prop :=
  ∀ d ∈ s.dirs, ∃ names, Open h.builder names ∧ d = h.builder.source.descend names

/-- That a path is one of a file that no rule leaves out. -/
def Ready (h : ChangeHandler) (fs : FileSystem) (rel : Path) : Prop :=
  ∃ names, names ≠ [] ∧ Open h.builder names ∧ rel = .ofNames names ∧
    SourceEntry.kindAt? fs (h.builder.source.descend names) = some .file

/-- The states that a handler can come to. The files may change in any way between two events. -/
inductive Watching (h : ChangeHandler) : WatchState → Prop
  | start (fs : FileSystem) (wellFormed : fs.WellFormed) : Watching h (h.subscribeTree fs .start).1
  | event (fs : FileSystem) (wellFormed : fs.WellFormed) {s : WatchState} (before : Watching h s)
      (e : Event)
      (reported : ∀ p ∈ e.paths, Reported s p) : Watching h (h.handleEvent fs s e).1

theorem mem_queuedOf {queueFiles : Bool} {entries : List SourceEntry}
    (hrel : rel ∈ h.queuedOf queueFiles entries) :
    ⟨rel, .file⟩ ∈ entries := by
  rw [queuedOf] at hrel
  split at hrel
  · exact mem_files.1 hrel
  · cases hrel

theorem mem_collectIn_sound (hwf : fs.WellFormed) (hs : h.builder.source.isAbsolute)
    (hopen : Open h.builder names) {e : SourceEntry}
    (he : e ∈ (h.builder.collectIn fs (.ofNames names)).1) (hd : d = h.builder.source.join e.path) :
    ∃ names, Open h.builder names ∧ d = h.builder.source.descend names := by
  obtain ⟨below, hne, hbelow, hpath, -⟩ := open_of_mem_collectIn hwf hs hopen he
  exact ⟨_, hbelow, by rw [hd, hpath, Path.join_ofNames _ (by simp [hne]) hbelow.valid.plain]⟩

theorem ready_of_mem_collectIn (hwf : fs.WellFormed) (hs : h.builder.source.isAbsolute)
    (hopen : Open h.builder names)
    (he : ⟨rel, .file⟩ ∈ (h.builder.collectIn fs (.ofNames names)).1) : h.Ready fs rel := by
  obtain ⟨below, hne, hbelow, hpath, hkind⟩ := open_of_mem_collectIn hwf hs hopen he
  exact ⟨names ++ below, by simp [hne], hbelow, hpath, hkind⟩

theorem sound_subscribeTree (hwf : fs.WellFormed) (hs : h.builder.source.isAbsolute) :
    h.Sound (h.subscribeTree fs .start).1 ∧ (h.subscribeTree fs .start).1.jobs = [] := by
  have hstart : h.Sound .start := fun d hd => absurd hd List.not_mem_nil
  rw [subscribeTree, add]
  split
  next heq =>
    split at heq
    · cases heq
    · split at heq
      · cases heq
        exact ⟨hstart, rfl⟩
      · cases heq
  next heq =>
    split at heq
    · cases heq
      refine ⟨fun d hd => ?_, by rw [jobs_subscribeBelow]; rfl⟩
      cases mem_subscribeBelow hd with
      | inl hmem => exact hstart d hmem
      | inr hmem =>
        obtain ⟨e, he, -, hd⟩ := hmem
        exact mem_collectIn_sound hwf hs (.nil h.builder) he hd
    · split at heq
      · cases heq
      · cases heq
        refine ⟨fun d hd => ?_, by rw [jobs_subscribeBelow]; rfl⟩
        cases mem_subscribeBelow hd with
        | inl hmem => exact ⟨[], .nil h.builder, by simpa [WatchState.start] using hmem⟩
        | inr hmem =>
          obtain ⟨e, he, -, hd⟩ := hmem
          exact mem_collectIn_sound hwf hs (.nil h.builder) he hd

/-- One path handled: only open directories are subscribed to, and only files in them are queued. -/
theorem sound_handle (created : Bool) (hwf : fs.WellFormed) (hs : h.builder.source.isAbsolute)
    {name : Text} (hopen : Open h.builder names) (hname : ValidName name) (hsound : h.Sound s) :
    h.Sound (h.handle fs created s (h.builder.source.descend (names ++ [name]))).1 ∧
      ∃ queued, (h.handle fs created s (h.builder.source.descend (names ++ [name]))).1.jobs =
        s.jobs ++ queued ∧
        ∀ rel ∈ queued, h.Ready fs rel := by
  have hcase := h.handling fs created s (h.builder.source.descend (names ++ [name]))
  generalize h.handle fs created s (h.builder.source.descend (names ++ [name])) = next at hcase ⊢
  cases hcase with
  | hidden | known => exact ⟨hsound, [], by simp, by simp⟩
  | subscribed rel hvisible =>
    obtain ⟨rfl, hpath⟩ := visible?_descend_concat hs hopen hname hvisible
    refine ⟨fun d hd => ?_, _, jobs_subscribeNew h fs s _ _, fun rel hrel => ?_⟩
    · cases mem_subscribeNew hd with
      | inl hmem => exact hsound d hmem
      | inr hor =>
        cases hor with
        | inl heq => exact ⟨_, hpath, heq⟩
        | inr hmem =>
          obtain ⟨e, he, -, hd⟩ := hmem
          exact mem_collectIn_sound hwf hs hpath he hd
    · exact ready_of_mem_collectIn hwf hs hpath (mem_queuedOf hrel)
  | queued rel hvisible hfile =>
    obtain ⟨rfl, hpath⟩ := visible?_descend_concat hs hopen hname hvisible
    obtain ⟨hdirs, hjobs, -⟩ := h.submit_spec s (.ofNames (names ++ [name]))
    refine ⟨by rwa [Sound, hdirs], _, hjobs, fun rel hrel => ?_⟩
    split at hrel
    · cases hrel
    · rw [List.mem_singleton.1 hrel]
      exact ⟨_, by simp, hpath, rfl, SourceEntry.kindAt?_eq_file.2 (isFile_iff.1 hfile)⟩
  | forgotten => exact ⟨fun d hd => hsound d (WatchState.mem_forget.1 hd).1, [], by simp, by simp⟩

theorem sound_handleAll (hwf : fs.WellFormed) (hs : h.builder.source.isAbsolute)
    (hps : ∀ p ∈ ps, ∃ names name, Open h.builder names ∧ ValidName name ∧
      p = h.builder.source.descend (names ++ [name]))
    (hsound : h.Sound s) :
    h.Sound (h.handleAll fs created s ps).1 ∧
      ∃ queued, (h.handleAll fs created s ps).1.jobs = s.jobs ++ queued ∧
        ∀ rel ∈ queued, h.Ready fs rel := by
  induction ps generalizing s with
  | nil => exact ⟨hsound, [], by simp [handleAll], by simp⟩
  | cons p ps ih =>
    obtain ⟨names, name, hopen, hname, rfl⟩ := hps p List.mem_cons_self
    obtain ⟨hone, queued, hjobs, hready⟩ := sound_handle created hwf hs hopen hname hsound
    rw [handleAll]
    split
    next s' e heq =>
      rw [heq] at hone hjobs
      exact ⟨hone, queued, hjobs, hready⟩
    next s' heq =>
      rw [heq] at hone hjobs
      obtain ⟨hrest, more, hmore, hready'⟩ :=
        ih (fun q hq => hps q (List.mem_cons_of_mem _ hq)) hone
      refine ⟨hrest, queued ++ more, by rw [hmore, hjobs, List.append_assoc], fun rel hrel => ?_⟩
      exact (List.mem_append.1 hrel).elim (hready rel) (hready' rel)

theorem sound_handleEvent (hwf : fs.WellFormed) (hs : h.builder.source.isAbsolute) {e : Event}
    (he : ∀ p ∈ e.paths, Reported s p) (hsound : h.Sound s) :
    h.Sound (h.handleEvent fs s e).1 ∧
      ∃ queued, (h.handleEvent fs s e).1.jobs = s.jobs ++ queued ∧
        ∀ rel ∈ queued, h.Ready fs rel := by
  refine sound_handleAll hwf hs (fun p hp => ?_) hsound
  obtain ⟨d, hd, name, hname, rfl⟩ := he p hp
  obtain ⟨names, hopen, rfl⟩ := hsound d hd
  exact ⟨names, name, hopen, hname, (Path.descend_concat _ _ _).symm⟩

theorem Watching.sound (hs : h.builder.source.isAbsolute) (hw : Watching h s) : h.Sound s := by
  induction hw with
  | start fs hwf => exact (sound_subscribeTree hwf hs).1
  | event fs hwf before e hreported ih => exact (sound_handleEvent hwf hs hreported ih).1

/-- A handler queues paths of files only, and each is a file of the tree exactly if it does not go
through a link below the source. -/
theorem queued_listed_iff {c : Config} {cli : CommandLine} {start : FileSystem}
    (hstart : start.WellFormed) (hload : Config.load start cli = .ok c)
    (hb : h.builder = .ofConfig c) :
    (∀ fs, fs.WellFormed → (h.subscribeTree fs .start).1.jobs = []) ∧
    ∀ s fs e, Watching h s → fs.WellFormed → (∀ p ∈ e.paths, Reported s p) →
      ∃ queued, (h.handleEvent fs s e).1.jobs = s.jobs ++ queued ∧
        ∀ rel ∈ queued, fs.isFile (c.source.join rel) ∧
          ∃ names place t, rel = .ofNames names ∧ ValidNames names ∧
            fs.stat (c.source.join ⟨[]⟩) = .ok (place, .directory t) ∧
            (rel ∈ files ((ofConfig c).collect fs).1 ↔
              ∀ dirs more, names = dirs ++ more → dirs ≠ [] → more ≠ [] → ∀ target,
                fs.at? (place ++ dirs) ≠ some (.link target)) := by
  have hs : h.builder.source.isAbsolute := by
    rw [hb]
    exact (Config.loaded_of_load hstart hload).isAbsolute_source
  refine ⟨fun fs hwf => (sound_subscribeTree hwf hs).2, fun s fs e hw hwf he => ?_⟩
  obtain ⟨-, queued, hjobs, hready⟩ := sound_handleEvent hwf hs he (hw.sound hs)
  refine ⟨queued, hjobs, fun rel hrel => ?_⟩
  obtain ⟨names, hne, hopen, rfl, hkind⟩ := hready rel hrel
  rw [hb] at hs hopen hkind
  obtain ⟨place, t, hstat, hlisted⟩ := listed_iff_of_open hwf hs hne hopen hkind
  refine ⟨?_, names, place, t, rfl, hopen.valid, hstat, hlisted⟩
  have hjoin : c.source.join (.ofNames names) = c.source.descend names :=
    Path.join_ofNames _ hne hopen.valid.plain
  rw [hjoin]
  exact isFile_iff.2 (SourceEntry.kindAt?_eq_file.1 hkind)

def linkedSite : FileSystem where
  nodes := [(["s".toList], .directory 0), (["s".toList, "l".toList], .link "/f".toList),
    (["f".toList], .directory 0), (["f".toList, "b".toList], .file [98] 1)]
  here := ["s".toList]
  clock := 5

def linkedSiteConfig : Config where
  root := some (.ofString "/s")
  configPath := .ofString "/s/_config.toml"
  source := .ofString "/s"
  destination := .ofString "/s/_site"
  layouts := .ofString "/s/_layouts"
  includes := .ofString "/s/_includes"

def linkedSiteHandler : ChangeHandler := ⟨ofConfig linkedSiteConfig, fun _ _ => false, false⟩

def linkedSiteWatch : WatchState where
  dirs := [.ofString "/s", .ofString "/s/l"]
  attempts := 2
  effects := [.watched (.ofString "/s"), .watched (.ofString "/s/l")]

theorem linkedSite_load :
    Config.load linkedSite ⟨none, .ofString "_config.toml", none, some (.ofString "_site"),
      .build false⟩ =
      .ok linkedSiteConfig := by
  cbv

theorem linkedSite_collect :
    (ofConfig linkedSiteConfig).collect linkedSite = ([⟨.ofString "l", .directory⟩], []) :=
  collectIn_single ["s".toList] "l".toList (.link "/f".toList)
    (by cbv) (by cbv) (by cbv) rfl (by cbv) (by cbv)

theorem linkedSite_subscribeTree :
    (linkedSiteHandler.subscribeTree linkedSite .start).1 = linkedSiteWatch := by
  have hadd : linkedSiteHandler.add linkedSite .start linkedSiteHandler.builder.source =
      (⟨[.ofString "/s"], 1, [.watched (.ofString "/s")]⟩, none) := by cbv
  have hcollect : linkedSiteHandler.builder.collectIn linkedSite ⟨[]⟩ =
      ([⟨.ofString "l", .directory⟩], []) :=
    linkedSite_collect
  rw [subscribeTree, hadd]
  simp only
  rw [subscribeBelow, hcollect]
  cbv

theorem linkedSite_watching : Watching linkedSiteHandler linkedSiteWatch := by
  rw [← linkedSite_subscribeTree]
  exact .start linkedSite (by decide)

theorem linkedSite_reported : ∀ p ∈ [Path.ofString "/s/l/b"], Reported linkedSiteWatch p := by
  intro p hp
  rw [List.mem_singleton.1 hp]
  exact ⟨.ofString "/s/l", by decide, "b".toList, by decide, by decide⟩

theorem linkedSite_jobs :
    (linkedSiteHandler.handleEvent linkedSite linkedSiteWatch
      ⟨.modify, [.ofString "/s/l/b"]⟩).1.jobs =
      [.ofString "l/b"] := by
  cbv

/-- The file that is seen through the link is queued and is not of the tree. -/
theorem linkedSite_unlisted :
    ∃ rel ∈ (linkedSiteHandler.handleEvent linkedSite linkedSiteWatch
      ⟨.modify, [.ofString "/s/l/b"]⟩).1.jobs,
      linkedSite.isFile (linkedSiteConfig.source.join rel) ∧
      rel ∉ files ((ofConfig linkedSiteConfig).collect linkedSite).1 := by
  obtain ⟨queued, hjobs, hall⟩ := (queued_listed_iff (by decide) linkedSite_load rfl).2
    linkedSiteWatch linkedSite ⟨.modify, [.ofString "/s/l/b"]⟩ linkedSite_watching (by decide)
      linkedSite_reported
  have hmem : Path.ofString "l/b" ∈ queued := by
    have hnone : linkedSiteWatch.jobs = [] := rfl
    rw [linkedSite_jobs, hnone, List.nil_append] at hjobs
    rw [← hjobs]
    exact List.mem_singleton_self _
  obtain ⟨hfile, names, place, t, hpath, hvalid, hstat, hlisted⟩ := hall _ hmem
  refine ⟨_, by rw [linkedSite_jobs]; exact List.mem_singleton_self _, hfile, fun hin => ?_⟩
  have htop : linkedSite.stat (linkedSiteConfig.source.join ⟨[]⟩) =
      .ok (["s".toList], .directory 0) := by cbv
  obtain ⟨rfl, -⟩ := Prod.mk.inj (Except.ok.inj (hstat.symm.trans htop))
  have hnames : names = ["l".toList, "b".toList] := by
    have hne : names ≠ [] := by
      intro hnil
      rw [hnil] at hpath
      exact absurd hpath (by decide)
    exact Path.ofNames_inj hvalid (by decide) hne (by simp) (hpath.symm.trans (by decide))
  exact hlisted.1 hin ["l".toList] ["b".toList] hnames (by simp) (by simp) "/f".toList (by decide)

/-- A handler may queue what is not a file of the tree. -/
theorem not_only_listed_queued :
    ¬∀ (start : FileSystem) (cli : CommandLine) (c : Config) (h : ChangeHandler) (s : WatchState)
      (fs : FileSystem) (e : Event), start.WellFormed → Config.load start cli = .ok c →
      h.builder = .ofConfig c → Watching h s →
      fs.WellFormed → (∀ p ∈ e.paths, Reported s p) →
        ∃ queued, (h.handleEvent fs s e).1.jobs = s.jobs ++ queued ∧
          ∀ rel ∈ queued, rel ∈ files ((ofConfig c).collect fs).1 := by
  intro hall
  obtain ⟨queued, hjobs, hlisted⟩ := hall linkedSite _ linkedSiteConfig linkedSiteHandler
    linkedSiteWatch linkedSite ⟨.modify, [.ofString "/s/l/b"]⟩ (by decide) linkedSite_load rfl
      linkedSite_watching (by decide) linkedSite_reported
  have hnone : linkedSiteWatch.jobs = [] := rfl
  rw [linkedSite_jobs, hnone, List.nil_append] at hjobs
  have hmem := hlisted (.ofString "l/b") (by rw [← hjobs]; exact List.mem_singleton_self _)
  rw [linkedSite_collect] at hmem
  cases hmem

end ChangeHandler
end StaticSite
