import Mathlib
import StaticSite.Proofs.LiveBuilds
import StaticSite.Proofs.PathRests

/-! Which directories are ever subscribed to. An event may name any path, a tree may look any way
when it is handled, and any subscription may be refused; what is subscribed to is the source or is
below it, and is not left out. There are three ways to a subscription: as the source, as a path that
an event names, and as an entry that is listed below one of these. -/
namespace StaticSite

open FileSystem

namespace ChangeHandler

variable {h : ChangeHandler} {fs : FileSystem} {s : WatchState} {d p rel : Path} {ps : List Path}
  {entries : List SourceEntry} {queueFiles created : Bool} {P : Path → Prop}

/-- That all directories that are subscribed to are of some kind, and all that have ever been. -/
structure Only (P : Path → Prop) (s : WatchState) : Prop where
  held : ∀ d ∈ s.dirs, P d
  asked : ∀ d, .watched d ∈ s.effects → P d

theorem Only.start : Only P .start := ⟨by simp [WatchState.start], by simp [WatchState.start]⟩

theorem Only.emit (ho : Only P s) {e : WatchEffect} (he : ∀ d, e ≠ .watched d) :
    Only P (s.emit e) := by
  refine ⟨ho.held, fun d hd => ?_⟩
  cases List.mem_append.1 hd with
  | inl hbefore => exact ho.asked d hbefore
  | inr hnew => exact absurd (List.mem_singleton.1 hnew).symm (he d)

theorem Only.log (ho : Only P s) (line : Log.Line) : Only P (s.log line) := ho.emit (by simp)

theorem Only.foldl_log (ho : Only P s) (lines : List Log.Line) : Only P (lines.foldl .log s) := by
  induction lines generalizing s with
  | nil => exact ho
  | cons line lines ih => exact ih (ho.log line)

theorem Only.forget (ho : Only P s) (dir : Path) : Only P (s.forget dir) := by
  refine ⟨fun d hd => ho.held d (WatchState.mem_forget.1 hd).1, fun d hd => ?_⟩
  cases List.mem_append.1 hd with
  | inl hbefore => exact ho.asked d hbefore
  | inr hended => simp at hended

theorem Only.add (ho : Only P s) (hd : P d) : Only P (h.add fs s d).1 := by
  rw [ChangeHandler.add]
  split
  · exact ho
  · split
    · exact ⟨ho.held, ho.asked⟩
    · refine ⟨fun e he => ?_, fun e he => ?_⟩
      · cases List.mem_append.1 he with
        | inl hbefore => exact ho.held e hbefore
        | inr hnew => rwa [List.mem_singleton.1 hnew]
      · cases List.mem_append.1 he with
        | inl hbefore => exact ho.asked e hbefore
        | inr hnew =>
          cases List.mem_singleton.1 hnew
          exact hd

theorem Only.subscribe (ho : Only P s) (hd : P d) : Only P (h.subscribe fs s d) := by
  have hadd : Only P (h.add fs s d).1 := ho.add hd
  rw [ChangeHandler.subscribe]
  split
  next heq => rwa [heq] at hadd
  next heq =>
    rw [heq] at hadd
    exact hadd.log _

theorem Only.submit (ho : Only P s) (rel : Path) : Only P (h.submit s rel).1 := by
  rw [ChangeHandler.submit]
  split
  · exact ho
  · exact ho.emit (by simp)

theorem Only.subscribeAll (ho : Only P s)
    (hentries : ∀ e ∈ entries, e.kind = .directory → P (h.builder.source.join e.path)) :
    Only P (h.subscribeAll fs queueFiles s entries).1 := by
  induction entries generalizing s with
  | nil => exact ho
  | cons e rest ih =>
    have hrest : ∀ e ∈ rest, e.kind = .directory → P (h.builder.source.join e.path) :=
      fun e he => hentries e (List.mem_cons_of_mem _ he)
    obtain ⟨rel, kind⟩ := e
    cases kind with
    | directory => exact ih (ho.subscribe (hentries _ List.mem_cons_self rfl)) hrest
    | file =>
      cases queueFiles with
      | false => exact ih ho hrest
      | true =>
        rw [subscribeAll_file]
        split
        · exact ho
        · exact ih (ho.emit (by simp)) hrest

theorem Only.subscribeBelow (ho : Only P s)
    (hbelow : ∀ e ∈ (h.builder.collectIn fs rel).1, P (h.builder.source.join e.path)) :
    Only P (h.subscribeBelow fs s rel queueFiles).1 :=
  (ho.foldl_log _).subscribeAll fun e he _ => hbelow e he

/-! ### The source and what is shown below it -/

/-- That a directory is the source, or is below it by a path that is not left out. Paths are taken
by their components. -/
def Confined (h : ChangeHandler) (d : Path) : Prop :=
  d = h.builder.source ∨ ∃ rel, rel.text ≠ [] ∧ h.builder.policy.excludesPath rel = false ∧
    d.components = h.builder.source.components ++ rel.components

theorem confined_of_visible? (hvisible : h.visible? p = some rel) :
    h.Confined p ∧ (h.builder.source.join rel).components = h.builder.source.components ++
      rel.components := by
  rw [visible?] at hvisible
  split at hvisible
  · cases hvisible
  next rest hstrip =>
    split at hvisible
    · cases hvisible
    next hshown =>
      cases hvisible
      rw [Bool.or_eq_true, not_or, decide_eq_true_eq, Bool.not_eq_true] at hshown
      obtain ⟨hcomponents, -⟩ := Path.components_of_stripPrefix? hstrip
      exact ⟨.inr ⟨rel, hshown.1, hshown.2, hcomponents⟩,
        Path.components_join_of_stripPrefix? hstrip⟩

theorem confined_of_mem_collectIn (hwf : fs.WellFormed) {above : List Component}
    (hrel : (h.builder.source.join rel).components = h.builder.source.components ++ above)
    {e : SourceEntry} (he : e ∈ (h.builder.collectIn fs rel).1) :
    h.Confined (h.builder.source.join e.path) := by
  obtain ⟨place, t, hstat⟩ := SourceEntry.stat_of_mem_collect he
  rw [Builder.collectIn, Builder.collectRefused, SourceEntry.collect_of_stat rfl hstat] at he
  obtain ⟨names, hne, -, ⟨n, hat⟩, -, hshown, -, hpath⟩ :=
    (SourceEntry.mem_below_iff hwf).1 (SourceEntry.mem_listed.1 he)
  have hcomponents : ((h.builder.source.join rel).descend names).components =
      h.builder.source.components ++ (above ++ names.map Path.Component.ofName) := by
    rw [Path.components_below (hwf.validNames hat).of_append.2.plain, hrel, List.append_assoc]
  have hbelow : h.builder.source.components <+:
      ((h.builder.source.join rel).descend names).components := by
    rw [hcomponents]
    exact List.prefix_append _ _
  obtain ⟨rest, hstrip, hrest, -⟩ :=
    Path.exists_stripPrefix? hbelow (by rw [hcomponents]; simp [hne])
  have hrelative : SourceEntry.relative h.builder.source
      ((h.builder.source.join rel).descend names) = rest := by
    rw [SourceEntry.relative, hstrip]
    rfl
  have hexcludes := hshown names hne (List.prefix_refl names)
  rw [hrelative] at hexcludes hpath
  rw [hpath]
  refine .inr ⟨rest, fun hnil => hrest ?_, hexcludes, Path.components_join_of_stripPrefix? hstrip⟩
  obtain rfl : rest = ⟨[]⟩ := Path.ext_text hnil
  rfl

theorem confined_subscribeTree (hwf : fs.WellFormed) (ho : Only h.Confined s) :
    Only h.Confined (h.subscribeTree fs s).1 := by
  have hadd : Only h.Confined (h.add fs s h.builder.source).1 := ho.add (.inl rfl)
  rw [subscribeTree]
  split
  next heq => rwa [heq] at hadd
  next heq =>
    rw [heq] at hadd
    have htop : (h.builder.source.join ⟨[]⟩).components = h.builder.source.components ++ [] := by
      rw [Path.components_join_nil, List.append_nil]
    exact hadd.subscribeBelow fun e he => confined_of_mem_collectIn hwf htop he

theorem confined_handle (hwf : fs.WellFormed) (ho : Only h.Confined s) :
    Only h.Confined (h.handle fs created s p).1 := by
  have hcase := h.handling fs created s p
  generalize h.handle fs created s p = next at hcase ⊢
  cases hcase with
  | hidden | known => exact ho
  | queued rel => exact ho.submit rel
  | forgotten => exact ho.forget p
  | subscribed rel hvisible =>
    obtain ⟨hp, hrel⟩ := confined_of_visible? hvisible
    exact (((ho.forget p).log _).subscribe hp).subscribeBelow fun e he =>
      confined_of_mem_collectIn hwf hrel he

theorem confined_handleAll (hwf : fs.WellFormed) (ho : Only h.Confined s) :
    Only h.Confined (h.handleAll fs created s ps).1 := by
  induction ps generalizing s with
  | nil => exact ho
  | cons p ps ih =>
    have hone : Only h.Confined (h.handle fs created s p).1 := confined_handle hwf ho
    rw [handleAll]
    split
    next heq => rwa [heq] at hone
    next heq =>
      rw [heq] at hone
      exact ih hone

/-- The states that a handler comes to whatever it is told: each event may name any paths, of any
kind, and finds any files. -/
inductive Reachable (h : ChangeHandler) : WatchState → Prop
  | start : Reachable h .start
  | tree (fs : FileSystem) (wellFormed : fs.WellFormed) {s : WatchState} (before : Reachable h s) :
      Reachable h (h.subscribeTree fs s).1
  | event (fs : FileSystem) (wellFormed : fs.WellFormed) {s : WatchState} (before : Reachable h s)
      (e : Event) :
      Reachable h (h.handleEvent fs s e).1

/-- Only the source and directories that are shown below it are ever subscribed to. -/
theorem Reachable.confined (ha : Reachable h s) :
    ∀ d, d ∈ s.dirs ∨ .watched d ∈ s.effects → d = h.builder.source ∨
      ∃ rel, rel.text ≠ [] ∧ h.builder.policy.excludesPath rel = false ∧
        d.components = h.builder.source.components ++ rel.components := by
  have honly : Only h.Confined s := by
    induction ha with
    | start => exact .start
    | tree fs hwf before ih => exact confined_subscribeTree hwf ih
    | event fs hwf before e ih => exact confined_handleAll hwf ih
  intro d hd
  exact hd.elim (honly.held d) (honly.asked d)

/-- The event names a directory outside of the source, one that is left out, and one that is
shown. -/
theorem linkedSite_confined :
    Path.ofString "/s/l" ∈ (linkedSiteHandler.handleEvent linkedSite linkedSiteWatch
        ⟨.create, [.ofString "/f", .ofString "/s/_site", .ofString "/s/l"]⟩).1.dirs ∧
      ∃ rel, rel.text ≠ [] ∧ (Builder.ofConfig linkedSiteConfig).policy.excludesPath rel = false ∧
        (Path.ofString "/s/l").components = (Path.ofString "/s").components ++ rel.components := by
  have hstart : Reachable linkedSiteHandler linkedSiteWatch := by
    rw [← linkedSite_subscribeTree]
    exact .tree linkedSite (by decide) .start
  have hdirs : (linkedSiteHandler.handleEvent linkedSite linkedSiteWatch
      ⟨.create, [.ofString "/f", .ofString "/s/_site", .ofString "/s/l"]⟩).1.dirs =
        [.ofString "/s", .ofString "/s/l"] := by
    cbv
  have hmem := hdirs ▸ List.mem_cons_of_mem (Path.ofString "/s")
    (List.mem_singleton_self (Path.ofString "/s/l"))
  exact ⟨hmem, ((hstart.event linkedSite (by decide) _).confined _ (.inl hmem)).resolve_left
    (by decide)⟩

end ChangeHandler
end StaticSite
