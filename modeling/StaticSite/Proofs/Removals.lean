import Mathlib
import StaticSite.Proofs.Mirroring
import StaticSite.Proofs.Tracking

/-! A removal that is told of. What is done about it depends on what is at the path by the time it
is handled: if nothing is there, or a directory that is not subscribed to, then the subscriptions at
and below it end; a file there is queued, and a directory that is still held to be subscribed to is
passed over, and then the old subscriptions stay. -/
namespace StaticSite

open FileSystem

namespace ChangeHandler

open WatchState

variable {h : ChangeHandler} {fs : FileSystem} {s : WatchState} {d p rel : Path}
  {effects : List WatchEffect}

/-- That the subscription to a directory ends in the course of some effects, and that the directory
is held in the state after them only if it has been subscribed to anew since. -/
def Ended (effects : List WatchEffect) (later : WatchState) (d : Path) : Prop :=
  ∃ before after, effects = before ++ .unwatched d :: after ∧
    (later.contains d → ∃ m, .watched m ∈ after ∧ m.components = d.components)

theorem handleEvent_single (h : ChangeHandler) (fs : FileSystem) (s : WatchState) (kind : EventKind)
    (p : Path) :
    h.handleEvent fs s ⟨kind, [p]⟩ = h.handle fs (kind = .create) s p := by
  rw [handleEvent, handleAll]
  split
  next heq => exact heq.symm
  next heq => exact heq.symm

theorem ended_of_steps {later : WatchState} (hsteps : Steps (s.forget p) later) (hd : d ∈ s.dirs)
    (hbelow : d.startsWith p) :
    Ended (later.since s) later d := by
  obtain ⟨more, heffects, hgained⟩ := gained_of_steps hsteps
  have hsince : later.since s = (s.dirs.filter (·.startsWith p)).map .unwatched ++ more := by
    simp [since, heffects, WatchState.forget]
  have hgone : d ∈ s.dirs.filter (·.startsWith p) := List.mem_filter.2 ⟨hd, hbelow⟩
  obtain ⟨above, below, hgone⟩ := List.append_of_mem hgone
  refine ⟨above.map .unwatched, below.map .unwatched ++ more, by simp [hsince, hgone],
    fun hlater => ?_⟩
  cases hgained d hlater with
  | inl hkept => exact absurd (contains_forget.1 hkept).2 (by simp [hbelow])
  | inr hnew => exact hnew.imp fun m hm => ⟨List.mem_append_right _ hm.1, hm.2⟩

theorem calls_submit (h : ChangeHandler) (s : WatchState) (rel d : Path) :
    calls ((h.submit s rel).1.since s) d = [] := by
  rw [submit]
  split
  · simp [since, calls]
  · simp [since, emit, calls, WatchEffect.call?]

/-- What is told of a removal ends the subscriptions at and below the path, unless there are any and
something is at the path by then that is taken for no change of a directory: a file, or a directory
held to be subscribed to. Then all of them stay, and the watcher is not called at all. -/
theorem removal_ends_iff (s : WatchState) (hvisible : h.visible? p = some rel) :
    ((∀ d ∈ s.dirs, d.startsWith p → Ended ((h.handleEvent fs s ⟨.remove, [p]⟩).1.since s)
        (h.handleEvent fs s ⟨.remove, [p]⟩).1 d) ↔
      (∀ d ∈ s.dirs, d.startsWith p = false) ∨ fs.isFile p = false ∧
      (fs.isDirectory p → s.contains p = false)) ∧
    (fs.isFile p ∨ fs.isDirectory p ∧ s.contains p →
      (h.handleEvent fs s ⟨.remove, [p]⟩).1.dirs = s.dirs ∧
        ∀ d, calls ((h.handleEvent fs s ⟨.remove, [p]⟩).1.since s) d = []) := by
  rw [handleEvent_single]
  -- where nothing is called, no subscription ends
  have hstays {next : WatchState} (hcalls : ∀ d, calls (next.since s) d = [])
      (hsome : ∀ d ∈ s.dirs, d.startsWith p → Ended (next.since s) next d) :
      ∀ d ∈ s.dirs, d.startsWith p = false := by
    intro d hd
    by_contra hbelow
    obtain ⟨before, after, heffects, -⟩ := hsome d hd (by simpa using hbelow)
    have hnone := hcalls d
    rw [heffects, calls_append] at hnone
    simp [calls, WatchEffect.call?] at hnone
  have hcase := h.handling fs (EventKind.remove = .create) s p
  generalize h.handle fs (EventKind.remove = .create) s p = next at hcase ⊢
  cases hcase with
  | hidden hinvisible => simp [hvisible] at hinvisible
  | known rel' _ hdirectory _ hsubscribed =>
    have hcalls (d : Path) : calls (s.since s) d = [] := by simp [since, calls]
    refine ⟨⟨fun hall => .inl (hstays hcalls hall), fun hor d hd hbelow => ?_⟩,
      fun _ => ⟨rfl, hcalls⟩⟩
    cases hor with
    | inl hnone => simp [hnone d hd] at hbelow
    | inr hnot => simp [hnot.2 hdirectory] at hsubscribed
  | queued rel' _ hfile =>
    have hcalls := h.calls_submit s rel'
    refine ⟨⟨fun hall => .inl (hstays hcalls hall), fun hor d hd hbelow => ?_⟩,
      fun _ => ⟨(h.submit_spec s rel').1, hcalls⟩⟩
    cases hor with
    | inl hnone => simp [hnone d hd] at hbelow
    | inr hnot => simp [hnot.1] at hfile
  | subscribed rel' _ hdirectory hnew =>
    have hfresh : s.contains p = false := hnew.resolve_left (by simp)
    have hnoFile : fs.isFile p = false := not_isFile_of_isDirectory hdirectory
    refine ⟨⟨fun _ => .inr ⟨hnoFile, fun _ => hfresh⟩, fun _ d hd hbelow => ?_⟩, fun hor => ?_⟩
    · exact ended_of_steps ((steps_log _ _).trans (h.steps_subscribeNew fs s p rel')) hd hbelow
    · cases hor with
      | inl hfile => simp [hnoFile] at hfile
      | inr hheld => simp [hfresh] at hheld
  | forgotten rel' _ hnoDirectory hnoFile =>
    refine ⟨⟨fun _ => .inr ⟨hnoFile, fun hdirectory => ?_⟩,
      fun _ d hd hbelow => ended_of_steps .refl hd hbelow⟩, fun hor => ?_⟩
    · simp [hnoDirectory] at hdirectory
    · simp [hnoDirectory, hnoFile] at hor

def blogSite : FileSystem where
  nodes := [(["w".toList], .directory 0), (["w".toList, "blog".toList], .directory 1)]
  here := ["w".toList]
  clock := 5

def blogWatch : WatchState where
  dirs := [.ofString "/w", .ofString "/w/blog"]
  attempts := 2
  effects := [.watched (.ofString "/w"), .watched (.ofString "/w/blog")]

theorem blogSite_collect : notesSiteHandler.builder.collectIn blogSite ⟨[]⟩ =
      ([⟨.ofString "blog", .directory⟩], []) := by
  have htop : notesSiteHandler.builder.source.join ⟨[]⟩ = .ofString "/w/" := by cbv
  have hstat : blogSite.stat (notesSiteHandler.builder.source.join ⟨[]⟩) =
      .ok (["w".toList], .directory 0) := by
    rw [htop]
    cbv
  have hshort : SourceEntry.refusal? .none (.ofString "/w/") = none := by cbv
  have hentries : blogSite.entries ["w".toList] = [("blog".toList, .directory 1)] := by cbv
  have hnone : blogSite.entries ["w".toList, "blog".toList] = [] := by cbv
  have hsource : notesSiteHandler.builder.source = .ofString "/w" := rfl
  have hrel : SourceEntry.relative (.ofString "/w") ((Path.ofString "/w/").joinText "blog".toList) =
      .ofString "blog" := by cbv
  have hshown : notesSiteHandler.builder.policy.excludesPath (.ofString "blog") = false := by cbv
  have hkind : SourceEntry.kindAt? blogSite ((Path.ofString "/w/").joinText "blog".toList) =
      some .directory := by cbv
  have hfuel : blogSite.nodes.length = 2 := rfl
  rw [Builder.collectIn, Builder.collectRefused, SourceEntry.collect_of_stat rfl hstat, htop,
    hsource, hfuel, SourceEntry.below, hshort, hentries]
  simp only [SourceEntry.seenKind?_none, List.flatMap_cons, List.flatMap_nil, hrel, hshown, hkind,
    Node.isDirectory, List.append_nil]
  rw [SourceEntry.below, show ["w".toList] ++ ["blog".toList] =
    ["w".toList, "blog".toList] from rfl, hnone]
  rfl

theorem blogWatch_reachable : Reachable notesSiteHandler blogWatch := by
  have hadd : notesSiteHandler.add blogSite .start notesSiteHandler.builder.source =
      (⟨[.ofString "/w"], 1, [.watched (.ofString "/w")]⟩, none) := by cbv
  have htree : (notesSiteHandler.subscribeTree blogSite .start).1 = blogWatch := by
    rw [subscribeTree, hadd]
    simp only
    rw [subscribeBelow, blogSite_collect]
    cbv
  rw [← htree]
  exact .tree blogSite (by decide) .start

/-- The directory had been refused and is there again, and what is held is below it. -/
theorem blogSite_renewed :
    notesSiteHandler.visible? (.ofString "/w/blog") = some (.ofString "blog") ∧
      Ended ((notesSiteHandler.handleEvent blogSite ⟨[.ofString "/w", .ofString "/w/blog/old"], 3,
        []⟩
          ⟨.remove, [.ofString "/w/blog"]⟩).1.since ⟨[.ofString "/w", .ofString "/w/blog/old"], 3,
          []⟩)
        (notesSiteHandler.handleEvent blogSite ⟨[.ofString "/w", .ofString "/w/blog/old"], 3, []⟩
          ⟨.remove, [.ofString "/w/blog"]⟩).1 (.ofString "/w/blog/old") := by
  have hvisible : notesSiteHandler.visible? (.ofString "/w/blog") = some (.ofString "blog") := by
    cbv
  refine ⟨hvisible, ?_⟩
  exact (removal_ends_iff ⟨[.ofString "/w", .ofString "/w/blog/old"], 3, []⟩ hvisible).1.2
    (.inr ⟨by cbv, fun _ => by cbv⟩) (.ofString "/w/blog/old") (by simp) (by cbv)

/-- A removed directory may stay in the set though its subscription has gone: it is passed over if
it is there again. -/
theorem not_always_ended :
    ¬∀ (h : ChangeHandler) (fs : FileSystem) (s : WatchState) (p rel : Path), Reachable h s →
      fs.WellFormed →
      h.visible? p = some rel → ∀ d ∈ s.dirs, d.startsWith p →
        Ended ((h.handleEvent fs s ⟨.remove, [p]⟩).1.since s) (h.handleEvent fs s ⟨.remove, [p]⟩).1
        d := by
  intro hall
  obtain ⟨before, after, heffects, -⟩ := hall notesSiteHandler blogSite blogWatch
    (.ofString "/w/blog") (.ofString "blog")
    blogWatch_reachable (by decide) (by cbv) (.ofString "/w/blog") (by decide) (by cbv)
  have hnone :
      (notesSiteHandler.handleEvent blogSite blogWatch ⟨.remove, [.ofString "/w/blog"]⟩).1.since
      blogWatch = [] := by
    cbv
  rw [hnone] at heffects
  simp at heffects

end ChangeHandler
end StaticSite
