import StaticSite.Proofs.Lookup

/-! What putting and erasing change: one place, and all that is below one place. Where a file is
written anew, paths lead to the same places as before. -/
namespace StaticSite.FileSystem

variable {fs : FileSystem} {p q : Place} {n : Node} {name : Text}

theorem lookup_filter {α : Type} {l : List (Place × α)} (keep : Place → Bool) (h : keep q = true) :
    (l.filter fun e => keep e.1).lookup q = l.lookup q := by
  induction l with
  | nil => rfl
  | cons e l ih =>
    obtain ⟨r, m⟩ := e
    cases hqr : q == r with
    | true =>
      have hr : keep r = true := by
        rw [← eq_of_beq hqr]
        exact h
      simp [hr, List.lookup_cons, hqr]
    | false =>
      by_cases hr : keep r = true <;> simp [hr, List.lookup_cons, hqr, ih]

theorem at?_put_self (fs : FileSystem) (hp : p ≠ []) (n : Node) : (fs.put p n).at? p = some n := by
  rw [at?_of_ne_nil _ hp, put]
  simp

theorem at?_put_of_ne (fs : FileSystem) (n : Node) (h : q ≠ p) : (fs.put p n).at? q = fs.at? q := by
  by_cases hq : q = []
  · subst hq
    rfl
  rw [at?_of_ne_nil _ hq, at?_of_ne_nil _ hq, put]
  simp only [List.lookup_cons, beq_eq_false_iff_ne.2 h]
  exact lookup_filter (fun r => decide (r ≠ p)) (by simpa using h)

theorem exists_at?_put (h : fs.at? q = some n) (p : Place) (m : Node) :
    ∃ k, (fs.put p m).at? q = some k := by
  by_cases hq : q = p
  · subst hq
    by_cases hne : q = []
    · subst hne
      exact ⟨_, rfl⟩
    · exact ⟨m, at?_put_self fs hne m⟩
  · exact ⟨n, (at?_put_of_ne fs m hq).trans h⟩

@[simp] theorem at?_tick (fs : FileSystem) (q : Place) : fs.tick.at? q = fs.at? q := rfl

theorem at?_erase_of_not_below (fs : FileSystem) (h : ¬p <+: q) :
    (fs.erase p).at? q = fs.at? q := by
  by_cases hq : q = []
  · subst hq
    rfl
  rw [at?_of_ne_nil _ hq, at?_of_ne_nil _ hq, erase]
  exact lookup_filter (fun r => !p.isPrefixOf r) (by simpa [← List.isPrefixOf_iff_prefix] using h)

theorem at?_erase_below (fs : FileSystem) (hq : q ≠ []) (h : p <+: q) :
    (fs.erase p).at? q = none := by
  cases hn : (fs.erase p).at? q with
  | none => rfl
  | some n =>
    have hmem := mem_nodes_of_at? hq hn
    rw [erase, List.mem_filter] at hmem
    simp [List.isPrefixOf_iff_prefix.2 h] at hmem

theorem WellFormed.tick (h : fs.WellFormed) : fs.tick.WellFormed := ⟨h.once, h.parent, h.names⟩

theorem LinkFree.tick (h : fs.LinkFree) : fs.tick.LinkFree := h

/-- A node may be put into a directory, if it is a directory or nothing is below its place. -/
theorem WellFormed.put (h : fs.WellFormed) {t : Nat} (hp : fs.at? p = some (.directory t))
    (hname : ValidName name) (hbelow : n.isDirectory = false →
      ∀ m, fs.at? (p ++ [name] ++ [m]) = none) :
    (fs.put (p ++ [name]) n).WellFormed := by
  have hne : p ++ [name] ≠ [] := by simp
  refine ⟨?_, ?_, ?_⟩
  · rw [FileSystem.put, List.map_cons, List.nodup_cons]
    refine ⟨?_, h.once.sublist (List.filter_sublist.map _)⟩
    simp
  · intro q m k hk
    by_cases hq : q = p ++ [name]
    · subst hq
      rw [at?_put_self fs hne]
      rcases hn : n.isDirectory with _ | _
      · rw [at?_put_of_ne fs n (by simp), hbelow hn] at hk
        simp at hk
      · cases n with
        | directory u => exact ⟨u, rfl⟩
        | file | link => simp [Node.isDirectory] at hn
    · rw [at?_put_of_ne fs n hq]
      by_cases heq : q ++ [m] = p ++ [name]
      · obtain ⟨rfl, -⟩ := List.append_inj' heq rfl
        exact ⟨t, hp⟩
      · rw [at?_put_of_ne fs n heq] at hk
        exact h.parent hk
  · intro e he
    cases List.mem_cons.1 he with
    | inl hsame =>
      subst hsame
      exact (h.validNames hp).append (by simpa [ValidNames] using hname)
    | inr he => exact h.names e (List.mem_filter.1 he).1

theorem LinkFree.put (h : fs.LinkFree) (hn : n.isLink = false) (p : Place) :
    (fs.put p n).LinkFree := by
  intro e he
  cases List.mem_cons.1 he with
  | inl heq =>
    subst heq
    exact hn
  | inr he => exact h e (List.mem_filter.1 he).1

theorem WellFormed.erase (h : fs.WellFormed) (p : Place) : (fs.erase p).WellFormed := by
  refine ⟨h.once.sublist (List.filter_sublist.map _), ?_,
    fun e he => h.names e (List.mem_filter.1 he).1⟩
  intro q m k hk
  by_cases hpq : p <+: q ++ [m]
  · rw [at?_erase_below fs (by simp) hpq] at hk
    simp at hk
  · rw [at?_erase_of_not_below fs hpq] at hk
    have hq : ¬p <+: q := fun hq => hpq (hq.trans (List.prefix_append _ _))
    rw [at?_erase_of_not_below fs hq]
    exact h.parent hk

/-! ### Times of directories -/

@[simp] theorem stamp?_tick (fs : FileSystem) (q : Place) : fs.tick.stamp? q = fs.stamp? q := rfl

theorem lookup_stamped (fs : FileSystem) (p q : Place) :
    (fs.stamped p).lookup q =
      if q = p.dropLast then some fs.clock else if p <+: q then none else fs.stamp? q := by
  rw [stamped, List.lookup_cons]
  by_cases hup : q = p.dropLast
  · simp [hup]
  rw [beq_eq_false_iff_ne.2 hup, if_neg hup]
  by_cases hbelow : p <+: q
  · rw [if_pos hbelow]
    simp only [List.lookup_eq_none_iff, List.mem_filter, bne_iff_ne]
    rintro ⟨r, u⟩ ⟨-, hr⟩ rfl
    simp [List.isPrefixOf_iff_prefix.2 hbelow] at hr
  · rw [if_neg hbelow]
    exact lookup_filter (fun r => !p.isPrefixOf r)
      (by simpa [← List.isPrefixOf_iff_prefix] using hbelow)

theorem stamp?_put_of_some (h : fs.at? p = some n) (m : Node) (q : Place) :
    (fs.put p m).stamp? q = fs.stamp? q := by
  rw [stamp?, put]
  simp only [h, Option.isSome_some, if_true]
  rfl

theorem stamp?_put_of_none (h : fs.at? p = none) (m : Node) (q : Place) :
    (fs.put p m).stamp? q =
      if q = p.dropLast then some fs.clock else if p <+: q then none else fs.stamp? q := by
  rw [stamp?, put]
  simp only [h, Option.isSome_none, Bool.false_eq_true, if_false]
  exact lookup_stamped fs p q

theorem timeOf_congr {fs' : FileSystem} (h : fs'.stamp? p = fs.stamp? p) (n : Node) :
    fs'.timeOf p n = fs.timeOf p n := by
  cases n <;> simp only [timeOf, h]

/-- That a directory has the time it had, or that something new is in it since. -/
def Restamped (fs fs' : FileSystem) (q : Place) : Prop :=
  fs'.stamp? q = fs.stamp? q ∨
    (∃ u, fs.clock ≤ u ∧ fs'.stamp? q = some u) ∧
      ∃ m n, fs.at? (q ++ [m]) = none ∧ fs'.at? (q ++ [m]) = some n

theorem Restamped.refl (fs : FileSystem) (q : Place) : Restamped fs fs q := .inl rfl

theorem Restamped.trans {mid fs' : FileSystem} (h : Restamped fs mid q) (h' : Restamped mid fs' q)
    (hclock : fs.clock ≤ mid.clock) (hkept : ∀ p n, fs.at? p = some n → ∃ n', mid.at? p = some n')
    (hkept' : ∀ p n, mid.at? p = some n → ∃ n', fs'.at? p = some n') : Restamped fs fs' q := by
  rcases h' with hsame | ⟨⟨u, hu, hnow⟩, m, n, hnone, hat⟩
  · rcases h with hsame' | ⟨⟨u, hu, hnow⟩, m, n, hnone, hat⟩
    · exact .inl (hsame.trans hsame')
    · obtain ⟨n', hat'⟩ := hkept' _ _ hat
      exact .inr ⟨⟨u, hu, hsame.trans hnow⟩, m, n', hnone, hat'⟩
  · refine .inr ⟨⟨u, hclock.trans hu, hnow⟩, m, n, ?_, hat⟩
    by_contra hsome
    obtain ⟨k, hk⟩ := Option.ne_none_iff_exists'.1 hsome
    obtain ⟨k', hk'⟩ := hkept _ _ hk
    rw [hnone] at hk'
    cases hk'

/-- A new node changes the directory that it is in, and no other. -/
theorem WellFormed.restamped_put (h : fs.WellFormed) (hq : fs.at? q = some n) (p : Place)
    (m : Node) :
    Restamped fs (fs.put p m).tick q := by
  cases hp : fs.at? p with
  | some k => exact .inl (stamp?_put_of_some hp m q)
  | none =>
    have hbelow : ¬p <+: q := by
      rintro ⟨r, rfl⟩
      rw [h.none_below hp] at hq
      cases hq
    rw [Restamped, stamp?_tick, stamp?_put_of_none hp, if_neg hbelow]
    by_cases hup : q = p.dropLast
    · have hne : p ≠ [] := by
        rintro rfl
        cases hp
      have hlast : q ++ [p.getLast hne] = p := by rw [hup, List.dropLast_append_getLast hne]
      refine .inr ⟨⟨fs.clock, Nat.le_refl _, if_pos hup⟩, p.getLast hne, m, ?_, ?_⟩
      · rw [hlast, hp]
      · rw [hlast, at?_tick, at?_put_self fs hne]
    · exact .inl (if_neg hup)

/-! ### A file that is written anew -/

variable {content content' : Bytes} {time time' : Nat} {names : List Text} {path : Path}

/-- What is found where a node is exchanged. -/
def Spot.exchange (q : Place) (new : Node) : Spot → Spot
  | .found p n => .found p (if p = q then new else n)
  | .free p => .free p

theorem walk_put_file (hat : fs.at? q = some (.file content time)) {followLast : Bool}
    {links : Nat} :
    (fs.put q (.file content' time')).walk followLast links p names =
      (fs.walk followLast links p names).map (Spot.exchange q (.file content' time')) := by
  have hne : q ≠ [] := by
    rintro rfl
    cases hat
  have hself := at?_put_self fs hne (.file content' time')
  have hother {r : Place} (hr : r ≠ q) : (fs.put q (.file content' time')).at? r = fs.at? r :=
    at?_put_of_ne fs _ hr
  have hkept {r : Place} {n : Option Node} (hn : fs.at? r = n)
      (hfile : n ≠ some (.file content time)) :
      r ≠ q ∧ (fs.put q (.file content' time')).at? r = n := by
    have hr : r ≠ q := fun he => hfile (by rw [← hn, he, hat])
    exact ⟨hr, (hother hr).trans hn⟩
  -- The induction follows the old lookup; only where it ends at the file does the new one find
  -- something else.
  fun_induction FileSystem.walk fs followLast links p names with
  | case1 links p =>
    rw [FileSystem.walk]
    by_cases hp : p = q
    · subst hp
      simp [hself, Except.map, Spot.exchange]
    · simp [hother hp, Except.map, Spot.exchange, hp]
  | case2 links p rest ih => rw [FileSystem.walk, if_pos rfl, ih]
  | case3 links p rest hdot ih => rw [FileSystem.walk, if_neg hdot, if_pos rfl, ih]
  | case4 links p name rest hdot hdots hlong =>
    rw [FileSystem.walk, if_neg hdot, if_neg hdots, if_pos hlong]
    rfl
  | case5 =>
    rename_i p name hdot hdots hlen hnone
    rw [FileSystem.walk, if_neg hdot, if_neg hdots, if_neg hlen, (hkept hnone (by simp)).2]
    rfl
  | case6 =>
    rename_i p name rest hdot hdots hlen hnone hrest
    rw [FileSystem.walk, if_neg hdot, if_neg hdots, if_neg hlen, (hkept hnone (by simp)).2]
    simp only [if_neg hrest]
    rfl
  | case7 links p name rest hdot hdots hlen t hdir ih =>
    rw [FileSystem.walk, if_neg hdot, if_neg hdots, if_neg hlen, (hkept hdir (by simp)).2, ih]
  | case8 =>
    rename_i p name hdot hdots hlen c t hfile
    rw [FileSystem.walk, if_neg hdot, if_neg hdots, if_neg hlen]
    by_cases hp : p ++ [name] = q
    · rw [hp, hself]
      simp [Except.map, Spot.exchange]
    · rw [hother hp, hfile]
      simp [Except.map, Spot.exchange, hp]
  | case9 =>
    rename_i p name rest hdot hdots hlen c t hfile hrest
    rw [FileSystem.walk, if_neg hdot, if_neg hdots, if_neg hlen]
    by_cases hp : p ++ [name] = q
    · rw [hp, hself]
      simp only [if_neg hrest]
      rfl
    · rw [hother hp, hfile]
      simp only [if_neg hrest]
      rfl
  | case10 links p name rest hdot hdots hlen target hlink hlast =>
    obtain ⟨hp, hsame⟩ := hkept hlink (by simp)
    rw [FileSystem.walk, if_neg hdot, if_neg hdots, if_neg hlen, hsame]
    simp only [if_pos hlast, Except.map, Spot.exchange, if_neg hp]
  | case11 =>
    rename_i p name rest hdot hdots hlen target hlink hlast
    rw [FileSystem.walk, if_neg hdot, if_neg hdots, if_neg hlen, (hkept hlink (by simp)).2]
    simp only [if_neg hlast]
    rfl
  | case12 =>
    rename_i p name rest hdot hdots hlen target hlink hlast links goal hgoal
    rw [FileSystem.walk, if_neg hdot, if_neg hdots, if_neg hlen, (hkept hlink (by simp)).2]
    simp only [if_neg hlast]
    rw [if_pos hgoal]
    rfl
  | case13 =>
    rename_i p name rest hdot hdots hlen target hlink hlast links goal hgoal more ih
    rw [FileSystem.walk, if_neg hdot, if_neg hdots, if_neg hlen, (hkept hlink (by simp)).2]
    simp only [if_neg hlast]
    rw [if_neg hgoal]
    exact ih

theorem stat_put_file (hat : fs.at? q = some (.file content time)) :
    (fs.put q (.file content' time')).stat path =
      (fs.stat path).map fun r => (r.1, if r.1 = q then .file content' time' else r.2) := by
  rw [stat, stat, find_eq, find_eq]
  cases textRefusal? path with
  | some e => rfl
  | none =>
    simp only [walk_put_file hat]
    rw [show (fs.put q (.file content' time')).here = fs.here from rfl]
    cases fs.walk true maxLinks (if path.isAbsolute then [] else fs.here) (lookupNames path) with
    | error e => rfl
    | ok spot => cases spot <;> rfl

theorem readText_put_file (hat : fs.at? q = some (.file content time))
    (h : ∀ n, fs.stat path ≠ .ok (q, n)) :
    (fs.put q (.file content' time')).readText path = fs.readText path := by
  have hstat : (fs.put q (.file content' time')).stat path = fs.stat path := by
    rw [stat_put_file hat]
    cases hs : fs.stat path with
    | error e => rfl
    | ok r =>
      have hr : r.1 ≠ q := fun he => h r.2 (by rw [hs, ← he])
      simp [Except.map, hr]
  rw [readText, readText, read, read, hstat]

theorem readText_put_file_self {n : Node} {text' : Text}
    (hat : fs.at? q = some (.file content time)) (hs : fs.stat path = .ok (q, n))
    (hdecode : Text.Utf8.decode content' = .ok text') :
    (fs.put q (.file content' time')).readText path = .ok text' := by
  rw [readText, read, stat_put_file hat, hs]
  simp [Except.map, hdecode]

end StaticSite.FileSystem
