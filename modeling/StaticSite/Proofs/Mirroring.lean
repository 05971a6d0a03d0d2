import Mathlib
import StaticSite.Proofs.Confinement

/-! The subscriptions against the calls that the watcher has answered. The handler goes by single
steps, and each of them makes one call at most; so at every moment of a run, whatever is refused in
it, the set of directories is the one that the calls so far leave subscribed to. -/
namespace StaticSite

inductive WatchCall
  | watch
  | unwatch
  deriving DecidableEq, Repr

/-- The call for a directory that an effect is. Directories are told by their components. -/
def WatchEffect.call? (d : Path) : WatchEffect → Option WatchCall
  | .watched m => if m.components = d.components then some .watch else none
  | .unwatched m => if m.components = d.components then some .unwatch else none
  | .logged _ => none
  | .queued _ => none

namespace WatchState

variable {s t u : WatchState} {d dir : Path} {effects more : List WatchEffect} {e : WatchEffect}

def calls (effects : List WatchEffect) (d : Path) : List WatchCall := effects.filterMap (·.call? d)

theorem calls_append (effects more : List WatchEffect) (d : Path) :
    calls (effects ++ more) d = calls effects d ++ calls more d := List.filterMap_append

theorem calls_concat (effects : List WatchEffect) (e : WatchEffect) (d : Path) :
    calls (effects ++ [e]) d = calls effects d ++ (e.call? d).toList := by
  rw [calls_append]
  cases h : e.call? d <;> simp [calls, h]

inductive Step : WatchState → WatchState → Prop
  | refused (s : WatchState) : Step s { s with attempts := s.attempts + 1 }
  | subscribed (s : WatchState) (d : Path) (new : s.contains d = false) :
      Step s ⟨s.dirs ++ [d], s.attempts + 1, s.effects ++ [.watched d]⟩
  | ended (above : List Path) (d : Path) (below : List Path) (attempts : Nat)
      (effects : List WatchEffect) :
      Step ⟨above ++ d :: below, attempts, effects⟩ ⟨above ++ below, attempts,
        effects ++ [.unwatched d]⟩
  | noted (s : WatchState) (e : WatchEffect) (silent : ∀ d, e.call? d = none) : Step s (s.emit e)

abbrev Steps : WatchState → WatchState → Prop := Relation.ReflTransGen Step

/-! ### The set and the calls -/

/-- That the set holds what the calls leave subscribed to. For each directory the calls take turns,
the first of them a subscription; the directory is in the set as long as the last one is a
subscription, and is there once. -/
structure Mirrors (s : WatchState) : Prop where
  once : s.dirs.Pairwise fun a b => a.components ≠ b.components
  held : ∀ d, s.contains d ↔ (calls s.effects d).getLast? = some .watch
  turns : ∀ d, (calls s.effects d).IsChain (· ≠ ·)
  first : ∀ d, (calls s.effects d).head? ≠ some .unwatch

theorem Mirrors.start : Mirrors .start := by
  refine ⟨.nil, fun d => ?_, fun d => .nil, fun d => ?_⟩
  · simp [WatchState.start, contains, calls]
  · simp [WatchState.start, calls]

theorem contains_concat (dirs : List Path) (m d : Path) (attempts : Nat)
    (effects : List WatchEffect) :
    (⟨dirs ++ [m], attempts, effects⟩ : WatchState).contains d ↔
      (⟨dirs, attempts, effects⟩ : WatchState).contains d ∨ m.components = d.components := by
  simp [contains]

theorem turns_concat {list : List WatchCall} {call : WatchCall} (h : list.IsChain (· ≠ ·))
    (hlast : list.getLast? ≠ some call) :
    (list ++ [call]).IsChain (· ≠ ·) := by
  refine List.isChain_append.2 ⟨h, .singleton call, fun x hx y hy => ?_⟩
  obtain rfl : call = y := by simpa using hy
  rintro rfl
  exact hlast hx

theorem head?_concat_ne {list : List WatchCall} {call : WatchCall} (h : list.head? ≠ some .unwatch)
    (hcall : list = [] → call ≠ .unwatch) : (list ++ [call]).head? ≠ some .unwatch := by
  cases list with
  | nil => simpa using hcall rfl
  | cons first rest => simpa using h

theorem Mirrors.subscribed (h : Mirrors s) (hnew : s.contains d = false) :
    Mirrors ⟨s.dirs ++ [d], s.attempts + 1, s.effects ++ [.watched d]⟩ := by
  have hcall (m : Path) : WatchEffect.call? m (.watched d) = if d.components =
      m.components then some .watch else none := rfl
  -- nothing is held under the name of the new directory, so no subscription is the last call for it
  have hfree (m : Path) (heq : d.components = m.components) :
      (calls s.effects m).getLast? ≠ some .watch := by
    intro hlast
    obtain ⟨k, hk, hkm⟩ := contains_iff.1 ((h.held m).2 hlast)
    rw [contains, List.any_eq_false] at hnew
    exact hnew k hk (by simp [hkm, heq])
  refine ⟨List.pairwise_append.2 ⟨h.once, List.pairwise_singleton _ _, fun a ha b hb heq => ?_⟩,
    fun m => ?_, fun m => ?_, fun m => ?_⟩
  · rw [List.mem_singleton.1 hb] at heq
    rw [contains, List.any_eq_false] at hnew
    exact hnew a ha (by simp [heq])
  · rw [contains_concat, calls_concat, hcall]
    by_cases heq : d.components = m.components
    · simp [heq]
    · rw [if_neg heq, Option.toList_none, List.append_nil, ← h.held m, or_iff_left heq]
      rfl
  · rw [calls_concat, hcall]
    by_cases heq : d.components = m.components
    · rw [if_pos heq]
      exact turns_concat (h.turns m) (hfree m heq)
    · rw [if_neg heq, Option.toList_none, List.append_nil]
      exact h.turns m
  · rw [calls_concat, hcall]
    by_cases heq : d.components = m.components
    · rw [if_pos heq]
      exact head?_concat_ne (h.first m) fun _ => by simp
    · rw [if_neg heq, Option.toList_none, List.append_nil]
      exact h.first m

theorem Mirrors.ended {above below : List Path} {attempts : Nat}
    (h : Mirrors ⟨above ++ d :: below, attempts, effects⟩) :
    Mirrors ⟨above ++ below, attempts, effects ++ [.unwatched d]⟩ := by
  have hcall (m : Path) : WatchEffect.call? m (.unwatched d) = if d.components =
      m.components then some .unwatch else none := rfl
  have honce := h.once
  rw [List.pairwise_middle fun {a b} hab => hab.symm, List.pairwise_cons] at honce
  obtain ⟨hd, hrest⟩ := honce
  have hmem (m : Path) : (⟨above ++ d :: below, attempts, effects⟩ : WatchState).contains m ↔
      d.components = m.components ∨ (⟨above ++ below, attempts, effects⟩ : WatchState).contains
        m := by
    simp only [contains, List.any_append, List.any_cons, Bool.or_eq_true, beq_iff_eq]
    exact or_left_comm
  have hheld (m : Path) (heq : d.components = m.components) :
      (calls effects m).getLast? = some .watch :=
    (h.held m).1 ((hmem m).2 (.inl heq))
  -- The call is one of `d`, which was subscribed to; the calls for all others are as before.
  refine ⟨hrest, fun m => ?_, fun m => ?_, fun m => ?_⟩
  · rw [calls_concat, hcall]
    by_cases heq : d.components = m.components
    · rw [if_pos heq]
      refine iff_of_false (fun hin => ?_) (by simp)
      obtain ⟨k, hk, hkm⟩ := contains_iff.1 hin
      exact hd k hk (heq.trans hkm.symm)
    · rw [if_neg heq, Option.toList_none, List.append_nil]
      exact ((hmem m).trans (or_iff_right heq)).symm.trans (h.held m)
  · rw [calls_concat, hcall]
    by_cases heq : d.components = m.components
    · rw [if_pos heq]
      exact turns_concat (h.turns m) (by simp [hheld m heq])
    · rw [if_neg heq, Option.toList_none, List.append_nil]
      exact h.turns m
  · rw [calls_concat, hcall]
    by_cases heq : d.components = m.components
    · rw [if_pos heq]
      refine head?_concat_ne (h.first m) fun hnil => ?_
      have hlast := hheld m heq
      rw [hnil] at hlast
      cases hlast
    · rw [if_neg heq, Option.toList_none, List.append_nil]
      exact h.first m

theorem Mirrors.step (h : Mirrors s) (hstep : Step s t) : Mirrors t := by
  cases hstep with
  | refused => exact ⟨h.once, h.held, h.turns, h.first⟩
  | subscribed _ d hnew => exact h.subscribed hnew
  | ended above d below attempts effects => exact h.ended
  | noted _ e hsilent =>
    have hsame (m : Path) : calls (s.emit e).effects m = calls s.effects m := by
      rw [emit, calls_concat, hsilent m, Option.toList_none, List.append_nil]
    refine ⟨h.once, fun m => ?_, fun m => ?_, fun m => ?_⟩
    · rw [hsame]
      exact h.held m
    · rw [hsame]
      exact h.turns m
    · rw [hsame]
      exact h.first m

theorem Mirrors.steps (h : Mirrors s) (hsteps : Steps s t) : Mirrors t := by
  induction hsteps with
  | refl => exact h
  | tail _ hstep ih => exact ih.step hstep

/-- Ending the subscriptions at and below a directory makes one call for each of them, and no other
call. -/
theorem Mirrors.calls_forget (h : Mirrors s) (dir d : Path) :
    calls ((s.forget dir).since s) d = if s.contains d ∧
    d.startsWith dir then [.unwatch] else [] := by
  have hsince : (s.forget dir).since s = (s.dirs.filter (·.startsWith dir)).map .unwatched := by
    simp [since, forget]
  have hcalls (dirs : List Path) : calls (dirs.map .unwatched) d =
      (dirs.filter (·.components == d.components)).map fun _ => WatchCall.unwatch := by
    induction dirs with
    | nil => rfl
    | cons m dirs ih =>
      rw [List.map_cons, calls, List.filterMap_cons, ← calls, ih, WatchEffect.call?]
      by_cases heq : m.components = d.components <;> simp [heq]
  rw [hsince, hcalls, List.filter_filter]
  split
  next hin =>
    obtain ⟨hcontains, hbelow⟩ := hin
    obtain ⟨m, hm, heq⟩ := contains_iff.1 hcontains
    obtain ⟨above, below, hdirs⟩ := List.append_of_mem hm
    have honce := h.once
    rw [hdirs, List.pairwise_middle fun {a b} hab => hab.symm, List.pairwise_cons] at honce
    have hothers (k : Path) (hk : k ∈ above ++ below) :
        (k.components == d.components && k.startsWith dir) = false := by
      simp [← heq, Ne.symm (honce.1 k hk)]
    have hone : (m.components == d.components && m.startsWith dir) = true := by
      rw [Path.startsWith, heq, ← Path.startsWith, hbelow]
      simp
    rw [hdirs, List.filter_append, List.filter_cons, hone,
      List.filter_eq_nil_iff.2 fun k hk => by simp [hothers k (List.mem_append_left _ hk)],
      List.filter_eq_nil_iff.2 fun k hk => by simp [hothers k (List.mem_append_right _ hk)]]
    rfl
  next hout =>
    rw [List.filter_eq_nil_iff.2 fun k hk => ?_, List.map_nil]
    intro hboth
    rw [Bool.and_eq_true, beq_iff_eq] at hboth
    refine hout ⟨contains_iff.2 ⟨k, hk, hboth.1⟩, ?_⟩
    rw [Path.startsWith, ← hboth.1]
    exact hboth.2

example : (Path.ofString "/s/blog2").startsWith (.ofString "/s/blog") = false := by decide

theorem gained_of_steps (hsteps : Steps s t) :
    ∃ more, t.effects = s.effects ++ more ∧
      ∀ d, t.contains d → s.contains d ∨ ∃ m, .watched m ∈ more ∧ m.components = d.components := by
  induction hsteps with
  | refl => exact ⟨[], by simp, fun d hd => .inl hd⟩
  | tail _ hstep ih =>
    obtain ⟨more, heffects, hgained⟩ := ih
    have hwider (e : WatchEffect) (d : Path) :
        (∃ m, .watched m ∈ more ∧ m.components = d.components) →
          ∃ m, .watched m ∈ more ++ [e] ∧ m.components = d.components :=
      fun hex => hex.imp fun m hm => ⟨List.mem_append_left _ hm.1, hm.2⟩
    cases hstep with
    | refused => exact ⟨more, heffects, hgained⟩
    | subscribed _ d =>
      refine ⟨more ++ [.watched d], by rw [heffects, List.append_assoc], fun m hm => ?_⟩
      cases (contains_concat _ _ _ _ _).1 hm with
      | inl hbefore => exact (hgained m hbefore).imp_right (hwider _ m)
      | inr hnew => exact .inr ⟨d, by simp, hnew⟩
    | ended above d below attempts effects =>
      have hended : effects ++ [.unwatched d] = s.effects ++ (more ++ [.unwatched d]) := by
        rw [← List.append_assoc]
        exact congrArg (· ++ [.unwatched d]) heffects
      refine ⟨more ++ [.unwatched d], hended, fun m hm => ?_⟩
      obtain ⟨k, hk, hkm⟩ := contains_iff.1 hm
      have hbefore : k ∈ above ++ d :: below := by
        rw [List.mem_append] at hk ⊢
        exact hk.imp_right (List.mem_cons_of_mem _)
      exact (hgained m (contains_iff.2 ⟨k, hbefore, hkm⟩)).imp_right (hwider _ m)
    | noted _ e =>
      refine ⟨more ++ [e], by rw [emit, heffects, List.append_assoc], fun m hm => ?_⟩
      exact (hgained m hm).imp_right (hwider _ m)

/-! ### The steps of the handler -/

theorem steps_log (s : WatchState) (line : Log.Line) :
    Steps s (s.log line) := .single (.noted s _ fun _ => rfl)

theorem steps_foldl_log (s : WatchState) (lines : List Log.Line) :
    Steps s (lines.foldl .log s) := by
  induction lines generalizing s with
  | nil => exact .refl
  | cons line lines ih => exact (steps_log s line).trans (ih (s.log line))

theorem steps_end (dir : Path) (kept rest : List Path) (attempts : Nat)
    (effects : List WatchEffect) :
    Steps ⟨kept ++ rest, attempts, effects⟩
      ⟨kept ++ rest.filter (!·.startsWith dir), attempts,
        effects ++ (rest.filter (·.startsWith dir)).map .unwatched⟩ := by
  induction rest generalizing kept effects with
  | nil => simpa using .refl
  | cons d rest ih =>
    cases hbelow : d.startsWith dir with
    | false => simpa [hbelow] using ih (kept ++ [d]) effects
    | true =>
      simpa [hbelow] using (Relation.ReflTransGen.single
        (.ended kept d rest attempts effects)).trans (ih kept _)

theorem steps_forget (s : WatchState) (dir : Path) :
    Steps s (s.forget dir) := steps_end dir [] s.dirs s.attempts s.effects

end WatchState

namespace ChangeHandler

open WatchState

variable {h : ChangeHandler} {fs : FileSystem} {s : WatchState} {d p rel : Path}

theorem steps_add (h : ChangeHandler) (fs : FileSystem) (s : WatchState) (d : Path) :
    Steps s (h.add fs s d).1 := by
  rw [add]
  split
  · exact .refl
  next hnew =>
    split
    · exact .single (.refused s)
    · exact .single (.subscribed s d (by simpa using hnew))

theorem steps_subscribe (h : ChangeHandler) (fs : FileSystem) (s : WatchState) (d : Path) :
    Steps s (h.subscribe fs s d) := by
  have hadd := h.steps_add fs s d
  rw [subscribe]
  split
  next heq => rwa [heq] at hadd
  next heq =>
    rw [heq] at hadd
    exact hadd.trans (steps_log _ _)

theorem steps_submit (h : ChangeHandler) (s : WatchState) (rel : Path) :
    Steps s (h.submit s rel).1 := by
  rw [submit]
  split
  · exact .refl
  · exact .single (.noted s _ fun _ => rfl)

theorem steps_subscribeAll (h : ChangeHandler) (fs : FileSystem) (queueFiles : Bool)
    (s : WatchState) (entries : List SourceEntry) :
    Steps s (h.subscribeAll fs queueFiles s entries).1 := by
  induction entries generalizing s with
  | nil => exact .refl
  | cons e rest ih =>
    obtain ⟨rel, kind⟩ := e
    cases kind with
    | directory => exact (h.steps_subscribe fs s _).trans (ih _)
    | file =>
      cases queueFiles with
      | false => exact ih s
      | true =>
        rw [subscribeAll_file]
        split
        · exact .refl
        · exact (Relation.ReflTransGen.single (.noted s _ fun _ => rfl)).trans (ih _)

theorem steps_subscribeBelow (h : ChangeHandler) (fs : FileSystem) (s : WatchState) (rel : Path)
    (queueFiles : Bool) :
    Steps s (h.subscribeBelow fs s rel queueFiles).1 :=
  (steps_foldl_log s _).trans (h.steps_subscribeAll fs queueFiles _ _)

theorem steps_subscribeTree (h : ChangeHandler) (fs : FileSystem) (s : WatchState) :
    Steps s (h.subscribeTree fs s).1 := by
  have hadd := h.steps_add fs s h.builder.source
  rw [subscribeTree]
  split
  next heq => rwa [heq] at hadd
  next heq =>
    rw [heq] at hadd
    exact hadd.trans (h.steps_subscribeBelow fs _ _ _)

theorem steps_subscribeNew (h : ChangeHandler) (fs : FileSystem) (s : WatchState) (dir rel : Path) :
    Steps ((s.forget dir).log (Log.line "watch" ("watching new directory ".toList ++ rel.text)))
      (h.subscribeNew fs s dir rel).1 :=
  (h.steps_subscribe fs _ dir).trans (h.steps_subscribeBelow fs _ rel true)

theorem steps_handle (h : ChangeHandler) (fs : FileSystem) (created : Bool) (s : WatchState)
    (p : Path) :
    Steps s (h.handle fs created s p).1 := by
  have hcase := h.handling fs created s p
  generalize h.handle fs created s p = next at hcase ⊢
  cases hcase with
  | hidden | known => exact .refl
  | subscribed rel =>
    exact ((steps_forget s p).trans (steps_log _ _)).trans (h.steps_subscribeNew fs s p rel)
  | queued rel => exact h.steps_submit s rel
  | forgotten => exact steps_forget s p

theorem steps_handleAll (h : ChangeHandler) (fs : FileSystem) (created : Bool) (s : WatchState)
    (ps : List Path) :
    Steps s (h.handleAll fs created s ps).1 := by
  induction ps generalizing s with
  | nil => exact .refl
  | cons p ps ih =>
    have hone := h.steps_handle fs created s p
    rw [handleAll]
    split
    next heq => rwa [heq] at hone
    next heq =>
      rw [heq] at hone
      exact hone.trans (ih _)

theorem Reachable.mirrors (ha : Reachable h s) : s.Mirrors := by
  induction ha with
  | start => exact .start
  | tree fs _ _ ih => exact ih.steps (h.steps_subscribeTree fs _)
  | event fs _ _ e ih => exact ih.steps (h.steps_handleAll fs _ _ e.paths)

/-- The set of directories mirrors the watcher at every moment. From any state that a handler can
come to, all that it does next goes step by step; and after each step, a directory is in the set
exactly if the last call for it was a subscription, the calls for it have taken turns, and ending
the subscriptions at and below a directory would make one call for each of these, and no other. -/
theorem Reachable.set_mirrors_calls (ha : Reachable h s) (fs : FileSystem) (next : WatchState)
    (hnext : next = (h.subscribeTree fs s).1 ∨ ∃ e, next = (h.handleEvent fs s e).1) :
    ∃ moments, (s :: moments).IsChain Step ∧ (s :: moments).getLast? = some next ∧
      ∀ m ∈ s :: moments,
        (∀ d, (m.contains d ↔ (calls m.effects d).getLast? = some .watch) ∧
          (calls m.effects d).IsChain (· ≠ ·)) ∧
        ∀ dir d, calls ((m.forget dir).since m) d = if m.contains d ∧
          d.startsWith dir then [.unwatch] else [] := by
  have hsteps : Steps s next := by
    rcases hnext with rfl | ⟨e, rfl⟩
    · exact h.steps_subscribeTree fs s
    · exact h.steps_handleAll fs _ s e.paths
  obtain ⟨moments, hchain, hlast⟩ := List.exists_isChain_cons_of_relationReflTransGen hsteps
  refine ⟨moments, hchain, by rw [List.getLast?_eq_getLast_of_ne_nil (by simp), hlast],
    fun m hm => ?_⟩
  have hmirrors : m.Mirrors := hchain.induction _ _ (fun _ _ hstep hbefore => hbefore.step hstep)
    (fun _ => ha.mirrors) m hm
  exact ⟨fun d => ⟨hmirrors.held d, hmirrors.turns d⟩, hmirrors.calls_forget⟩

def fickleHandler : ChangeHandler :=
  ⟨.ofConfig linkedSiteConfig, fun attempt _ => attempt == 2, false⟩

theorem fickleHandler_reachable : Reachable fickleHandler linkedSiteWatch := by
  have hadd : fickleHandler.add linkedSite .start fickleHandler.builder.source =
      (⟨[.ofString "/s"], 1, [.watched (.ofString "/s")]⟩, none) := by cbv
  have hcollect : fickleHandler.builder.collectIn linkedSite ⟨[]⟩ =
      ([⟨.ofString "l", .directory⟩], []) :=
    linkedSite_collect
  have htree : (fickleHandler.subscribeTree linkedSite .start).1 = linkedSiteWatch := by
    rw [subscribeTree, hadd]
    simp only
    rw [subscribeBelow, hcollect]
    cbv
  rw [← htree]
  exact .tree linkedSite (by decide) .start

/-- The directory is left for a moment, as the first of two new subscriptions is refused. -/
theorem fickleHandler_mirrored :
    calls (fickleHandler.handleEvent linkedSite linkedSiteWatch
        ⟨.create, [.ofString "/s/l", .ofString "/s/l"]⟩).1.effects (.ofString "/s/l") =
          [.watch, .unwatch, .watch] ∧
      (fickleHandler.handleEvent linkedSite linkedSiteWatch
        ⟨.create, [.ofString "/s/l", .ofString "/s/l"]⟩).1.contains (.ofString "/s/l") := by
  obtain ⟨moments, -, hlast, hall⟩ := fickleHandler_reachable.set_mirrors_calls linkedSite _
    (.inr ⟨⟨.create, [.ofString "/s/l", .ofString "/s/l"]⟩, rfl⟩)
  have hcalls : calls (fickleHandler.handleEvent linkedSite linkedSiteWatch
      ⟨.create, [.ofString "/s/l", .ofString "/s/l"]⟩).1.effects (.ofString "/s/l") =
        [.watch, .unwatch, .watch] := by
    cbv
  refine ⟨hcalls, ((hall _ (List.mem_of_getLast? hlast)).1 _).1.2 ?_⟩
  rw [hcalls]
  rfl

end ChangeHandler
end StaticSite
