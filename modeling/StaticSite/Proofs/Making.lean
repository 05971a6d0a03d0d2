import Mathlib.Data.List.TakeWhile
import StaticSite.Proofs.Routes
import StaticSite.Proofs.Updates

/-! Making directories. It only ever puts directories where nothing was, and when it succeeds the
path leads to one. Below a directory that is there it passes through the names one by one and stops
at the first that is in its way. -/
namespace StaticSite

namespace Path

theorem stop_pos_of_mem_partsFrom {i : Nat} {ts : List Text} {part : Part}
    (h : part ∈ partsFrom i ts) :
    0 < part.stop := by
  induction ts generalizing i with
  | nil => simp [partsFrom] at h
  | cons t ts ih =>
    rw [partsFrom] at h
    split at h
    · exact ih h
    next hne =>
      have hlen := List.length_pos_of_ne_nil hne
      split at h
      · split at h
        · cases List.mem_cons.1 h with
          | inl he =>
            subst he
            simp
          | inr h => exact ih h
        · exact ih h
      · cases List.mem_cons.1 h with
        | inl heq =>
          subst heq
          show 0 < i + t.length
          omega
        | inr h => exact ih h

theorem isAbsolute_parent? {p q : Path} (hp : p.isAbsolute) (h : p.parent? = some q) :
    q.isAbsolute := by
  obtain ⟨t, ht⟩ := isAbsolute_iff.1 hp
  have hparts := parts_of_absolute hp
  have hstops : ∀ part ∈ p.parts, 0 < part.stop := by
    intro part hpart
    rw [hparts] at hpart
    cases List.mem_cons.1 hpart with
    | inl he =>
      subst he
      simp
    | inr hpart => exact stop_pos_of_mem_partsFrom hpart
  rw [parent?] at h
  split at h
  · simp at h
  · simp at h
  next hroot hlast =>
    rw [Option.some.injEq] at h
    subst h
    generalize hns : partsFrom 0 (Text.pieces p.text) = ns at hparts
    cases List.eq_nil_or_concat' ns with
    | inl heq =>
      subst heq
      exact absurd (by simpa [hparts] using hlast.symm) (hroot 0 1)
    | inr hcase =>
      obtain ⟨ms, m, rfl⟩ := hcase
      have hdrop : p.parts.dropLast = ⟨0, 1, .root⟩ :: ms := by
        rw [hparts, ← List.cons_append, List.dropLast_concat]
      obtain ⟨last, hl⟩ : ∃ last, (⟨0, 1, .root⟩ :: ms : List Part).getLast? = some last := by
        rw [List.getLast?_cons]
        exact ⟨_, rfl⟩
      have hpos : 0 < last.stop := by
        refine hstops last ?_
        rw [hparts, ← List.cons_append]
        exact List.mem_append_left _ (List.mem_of_getLast? hl)
      obtain ⟨k, hk⟩ := Nat.exists_eq_add_one_of_ne_zero (Nat.pos_iff_ne_zero.1 hpos)
      rw [span, hdrop, hl, List.head?_cons]
      exact isAbsolute_iff.2 ⟨t.take k, by simp [ht, hk]⟩

end Path

namespace FileSystem

variable {fs fs' : FileSystem} {p q d : Place} {n : Node} {name : Text} {names : List Text}
  {path : Path}

/-! ### Slashes at the end -/

theorem trimSlashes_text (path : Path) :
    ∃ k, path.text = (trimSlashes path).text ++ List.replicate k '/' := by
  rw [trimSlashes]
  split
  · exact ⟨0, by simp⟩
  · have hcut := congrArg List.reverse
      (List.takeWhile_append_dropWhile (p := (· == '/')) (l := path.text.reverse))
    rw [List.reverse_append, List.reverse_reverse] at hcut
    have hslash : (path.text.reverse.takeWhile (· == '/')).reverse =
        List.replicate (path.text.reverse.takeWhile (· == '/')).length '/' := by
      rw [List.eq_replicate_iff]
      refine ⟨by simp, fun c hc => ?_⟩
      simpa using List.mem_takeWhile_imp (List.mem_reverse.1 hc)
    exact ⟨_, by rw [← hslash]; exact hcut.symm⟩

theorem trimSlashes_of_not_wantsDirectory (h : path.wantsDirectory = false) :
    trimSlashes path = path := by
  have hkept : (path.text.reverse.dropWhile (· == '/')).reverse = path.text := by
    rw [Path.wantsDirectory, ← List.head?_reverse] at h
    cases ht : path.text.reverse with
    | nil => simp [List.reverse_eq_nil_iff.1 ht]
    | cons c t =>
      rw [ht, List.head?_cons] at h
      have hc : (c == '/') = false := by simpa using h
      rw [List.dropWhile_cons, hc]
      simp only [Bool.false_eq_true, if_false]
      rw [← ht, List.reverse_reverse]
  rw [trimSlashes]
  simp only [hkept]
  split <;> rfl

theorem steps_trimSlashes (path : Path) : (trimSlashes path).steps = path.steps := by
  obtain ⟨k, hk⟩ := trimSlashes_text path
  have hpieces (a : Text) (k : Nat) :
      (Text.pieces (a ++ List.replicate k '/')).filter (· ≠ []) =
      (Text.pieces a).filter (· ≠ []) := by
    induction k with
    | zero => simp
    | succ k ih =>
      have happ : a ++ List.replicate (k + 1) '/' = (a ++ List.replicate k '/') ++ '/' :: [] := by
        rw [List.replicate_succ', List.append_assoc]
      rw [happ, Text.pieces_append_slash, List.filter_append, ih]
      simp [Text.pieces, Text.splitBy]
  rw [Path.steps_eq, Path.steps_eq, hk, hpieces]

theorem isAbsolute_trimSlashes (hp : path.isAbsolute) : (trimSlashes path).isAbsolute := by
  obtain ⟨k, hk⟩ := trimSlashes_text path
  rw [trimSlashes] at hk ⊢
  split
  · exact hp
  next hne =>
    rw [if_neg hne] at hk
    obtain ⟨t, ht⟩ := Path.isAbsolute_iff.1 hp
    cases hkept : (path.text.reverse.dropWhile (· == '/')).reverse with
    | nil => exact absurd hkept hne
    | cons c u =>
      rw [hkept, ht, List.cons_append, List.cons.injEq] at hk
      exact Path.isAbsolute_iff.2 ⟨u, by rw [hk.1]⟩

theorem trimSlashes_trimmed (hp : path.isAbsolute) : trimSlashes path.trimmed = path.trimmed := by
  cases Path.trimmed_cases hp with
  | inl h =>
    rw [Path.ext_text (q := ⟨['/']⟩) h]
    rfl
  | inr h => exact trimSlashes_of_not_wantsDirectory h

theorem textRefusal?_above (hp : path.isAbsolute) {ns : List Text} (hn : Path.Plain name)
    (hnone : textRefusal? (path.descend (ns ++ [name])) = none) :
    textRefusal? (path.descend ns).trimmed = none := by
  have habs := Path.isAbsolute_descend hp ns
  refine textRefusal?_mono ?_ ?_ hnone
  · rw [Path.descend_concat]
    exact (Path.trimmed_isPrefix habs).trans (Path.prefix_joinText habs hn)
  · obtain ⟨t, ht⟩ := Path.isAbsolute_iff.1 (Path.isAbsolute_trimmed habs)
    simp [ht]

/-! ### What is made -/

/-- That nothing changed but for directories where nothing was. -/
structure Grows (fs fs' : FileSystem) : Prop where
  wellFormed : fs'.WellFormed
  linkFree : fs.LinkFree → fs'.LinkFree
  clock : fs.clock ≤ fs'.clock
  at? : ∀ q, fs'.at? q = fs.at? q ∨ fs.at? q = none ∧ ∃ t, fs'.at? q = some (.directory t)
  stamp : ∀ q n, fs.at? q = some n → Restamped fs fs' q

theorem Grows.refl (h : fs.WellFormed) : fs.Grows fs :=
  ⟨h, id, Nat.le_refl _, fun _ => .inl rfl, fun q _ _ => .refl fs q⟩

theorem Grows.at?_of_some (h : fs.Grows fs') (hq : fs.at? q = some n) : fs'.at? q = some n := by
  cases h.at? q with
  | inl h => rw [h, hq]
  | inr hcase =>
    obtain ⟨hnone, -⟩ := hcase
    simp [hq] at hnone

theorem Grows.trans {fs'' : FileSystem} (h : fs.Grows fs') (h' : fs'.Grows fs'') :
    fs.Grows fs'' := by
  refine ⟨h'.wellFormed, fun hlf => h'.linkFree (h.linkFree hlf), Nat.le_trans h.clock h'.clock,
    fun q => ?_, fun q n hq => ?_⟩
  · rcases h'.at? q with hq' | ⟨hnone, hdir⟩ <;> rcases h.at? q with hq | ⟨hnone', hdir'⟩
    · exact .inl (hq'.trans hq)
    · exact .inr ⟨hnone', by rwa [hq']⟩
    · exact .inr ⟨hq ▸ hnone, hdir⟩
    · exact .inr ⟨hnone', hdir⟩
  · exact (h.stamp q n hq).trans (h'.stamp q n (h.at?_of_some hq)) h.clock
      (fun p k hk => ⟨k, h.at?_of_some hk⟩) fun p k hk => ⟨k, h'.at?_of_some hk⟩

theorem Grows.directory (h : fs.Grows fs') (r : Place) (t : Nat)
    (hr : fs.at? r = some (.directory t)) :
    ∃ u, fs'.at? r = some (.directory u) :=
  ⟨t, h.at?_of_some hr⟩

theorem Grows.restamped_put (h : fs.Grows fs') (hq : fs.at? q = some n) (p : Place) (m : Node) :
    Restamped fs (fs'.put p m).tick q :=
  (h.stamp q n hq).trans (h.wellFormed.restamped_put (h.at?_of_some hq) p m) h.clock
    (fun _ k hk => ⟨k, h.at?_of_some hk⟩) fun _ _ hk => exists_at?_put hk p m

theorem Grows.at?_of_file (h : fs.Grows fs') {content : Bytes} {t : Nat}
    (hq : fs'.at? q = some (.file content t)) :
    fs.at? q = some (.file content t) := by
  cases h.at? q with
  | inl h => rw [← h, hq]
  | inr hcase =>
    obtain ⟨-, u, hu⟩ := hcase
    simp [hq] at hu

theorem makeDirectory_eq_ok (h : fs.makeDirectory path = .ok fs') :
    ∃ q, fs.find false (trimSlashes path) = .ok (.free q) ∧
      fs' = (fs.put q (.directory fs.clock)).tick := by
  rw [makeDirectory] at h
  split at h
  · simp at h
  split at h
  · simp at h
  · simp at h
  next q hq => exact ⟨q, hq, by simpa using h.symm⟩

theorem makeDirectory_of_trimmed (fs : FileSystem) (h : trimSlashes path = path) :
    fs.makeDirectory path = match fs.find false path with
      | .error e => .error e
      | .ok (.found _ _) => .error .exists_
      | .ok (.free q) => .ok (fs.put q (.directory fs.clock)).tick := by
  rw [makeDirectory, h]
  split
  next hlong =>
    obtain ⟨hnul, hlong⟩ := Bool.and_eq_true_iff.1 hlong
    have hlong : maxPath ≤ Text.byteLength path.text := of_decide_eq_true hlong
    have hne : path.text ≠ [] := by
      intro hnil
      simp [hnil, Text.byteLength, maxPath] at hlong
    rw [find, if_neg (by simpa using hnul), if_neg hne, if_pos hlong]
  · rfl

theorem grows_of_makeDirectory (hfs : fs.WellFormed) (hp : path.isAbsolute)
    (h : fs.makeDirectory path = .ok fs') :
    fs.Grows fs' := by
  obtain ⟨q, hq, rfl⟩ := makeDirectory_eq_ok h
  obtain ⟨r, m, u, rfl, hm, hr, hnone⟩ := hfs.free_of_find (isAbsolute_trimSlashes hp) hq
  refine ⟨(hfs.put hr hm (by simp [Node.isDirectory])).tick, fun hlf => (hlf.put rfl _).tick,
    Nat.le_succ _, fun p => ?_, fun p n hp => hfs.restamped_put hp _ _⟩
  rw [at?_tick]
  by_cases hne : p = r ++ [m]
  · subst hne
    exact .inr ⟨hnone, _, at?_put_self fs (by simp) _⟩
  · exact .inl (at?_put_of_ne fs _ hne)

def attempt (fs : FileSystem) (path : Path) : FileSystem × Option IoError :=
  match fs.makeDirectory path with
  | .ok made => (made, none)
  | .error e => (fs, if fs.isDirectory path then none else some e)

theorem makeDirectories_succ (hp : path.isAbsolute) (fuel : Nat) :
    fs.makeDirectories path (fuel + 1) = match fs.makeDirectory path with
      | .error .notFound =>
        match path.parent? with
        | none => (fs, some .noTree)
        | some parent =>
          match fs.makeDirectories parent fuel with
          | (above, some e) => (above, some e)
          | (above, none) => above.attempt path
      | _ => fs.attempt path := by
  have hne : path.text ≠ [] := by
    obtain ⟨t, ht⟩ := Path.isAbsolute_iff.1 hp
    simp [ht]
  rw [makeDirectories, if_neg hne, attempt]
  cases hmade : fs.makeDirectory path with
  | ok made => rfl
  | error e => cases e <;> rfl

theorem attempt_grows (hfs : fs.WellFormed) (hp : path.isAbsolute) :
    fs.Grows (fs.attempt path).1 := by
  rw [attempt]
  split
  next made hmade => exact grows_of_makeDirectory hfs hp hmade
  · exact .refl hfs

theorem makeDirectories_grows (hfs : fs.WellFormed) (hp : path.isAbsolute) (fuel : Nat) :
    fs.Grows (fs.makeDirectories path fuel).1 := by
  induction fuel generalizing path with
  | zero => exact .refl hfs
  | succ fuel ih =>
    rw [makeDirectories_succ hp]
    split
    · split
      · exact .refl hfs
      next parent hparent =>
        have hgrows := ih (Path.isAbsolute_parent? hp hparent)
        split
        next above e heq =>
          rw [heq] at hgrows
          exact hgrows
        next above heq =>
          rw [heq] at hgrows
          exact hgrows.trans (attempt_grows hgrows.wellFormed hp)
    · exact attempt_grows hfs hp

theorem makeAll_grows (hfs : fs.WellFormed) (hp : path.isAbsolute) : fs.Grows (fs.makeAll path).1 :=
  makeDirectories_grows hfs hp _

theorem grows_of_makeAll (hfs : fs.WellFormed) (hp : path.isAbsolute) {e : Option IoError}
    (h : fs.makeAll path = (fs', e)) :
    fs.Grows fs' := by
  have hgrows := makeAll_grows hfs hp
  rwa [h] at hgrows

theorem attempt_cases (hfs : fs.WellFormed) (hp : path.isAbsolute) :
    (fs.attempt path).1 = fs ∨ ∃ q t, fs.at? q = none ∧
    (fs.attempt path).1.at? q = some (.directory t) := by
  rw [attempt]
  split
  next made hmade =>
    obtain ⟨q, hq, rfl⟩ := makeDirectory_eq_ok hmade
    obtain ⟨r, m, u, rfl, -, -, hnone⟩ := hfs.free_of_find (isAbsolute_trimSlashes hp) hq
    exact .inr ⟨_, _, hnone, at?_put_self fs (by simp) _⟩
  · exact .inl rfl

theorem makeDirectories_cases (hfs : fs.WellFormed) (hp : path.isAbsolute) (fuel : Nat) :
    (fs.makeDirectories path fuel).1 = fs ∨
      ∃ q t, fs.at? q = none ∧ (fs.makeDirectories path fuel).1.at? q = some (.directory t) := by
  induction fuel generalizing path with
  | zero => exact .inl rfl
  | succ fuel ih =>
    rw [makeDirectories_succ hp]
    split
    · split
      · exact .inl rfl
      next parent hparent =>
        have habove := ih (Path.isAbsolute_parent? hp hparent)
        have hgrows := makeDirectories_grows hfs (Path.isAbsolute_parent? hp hparent) fuel
        split
        next above e heq =>
          rw [heq] at habove
          exact habove
        next above heq =>
          rw [heq] at habove hgrows
          cases habove with
          | inl hsame =>
            simp only at hsame
            rw [hsame]
            exact attempt_cases hfs hp
          | inr hnew =>
            obtain ⟨q, t, hnone, hdir⟩ := hnew
            exact .inr ⟨q, t, hnone, (attempt_grows hgrows.wellFormed hp).at?_of_some hdir⟩
    · exact attempt_cases hfs hp

theorem makeAll_eq_self (hfs : fs.WellFormed) (hp : path.isAbsolute)
    (h : ∀ q, fs.at? q = none → (fs.makeAll path).1.at? q = none) : (fs.makeAll path).1 = fs := by
  cases makeDirectories_cases hfs hp (path.text.length + 1) with
  | inl hsame => exact hsame
  | inr hnew =>
    obtain ⟨q, t, hnone, hdir⟩ := hnew
    rw [← makeAll, h q hnone] at hdir
    simp at hdir

/-! ### Where it leads -/

theorem route_put_free {t : Nat} (h : fs.route p names = .ok (.free q)) :
    (fs.put q (.directory t)).route p names = .ok (.found q (.directory t)) := by
  have hnone := at?_of_route_free h
  induction names generalizing p with
  | nil => simp [route_nil] at h
  | cons name rest ih =>
    rw [route_step] at h ⊢
    split at h
    next hdot =>
      rw [if_pos hdot]
      exact ih h
    next hdot =>
      rw [if_neg hdot]
      split at h
      next hdots =>
        rw [if_pos hdots]
        exact ih h
      next hdots =>
        rw [if_neg hdots]
        split at h
        case isFalse => simp at h
        next hfits =>
          rw [if_pos hfits]
          split at h
          · split at h
            next hrest =>
              simp only [Except.ok.injEq, Spot.free.injEq] at h
              subst h hrest
              rw [at?_put_self fs (by simp)]
              simp [route_nil, at?_put_self fs (p := p ++ [name]) (by simp)]
            · simp at h
          next u hat =>
            have hne : p ++ [name] ≠ q := by
              intro heq
              subst heq
              simp [hnone] at hat
            rw [at?_put_of_ne fs _ hne, hat]
            exact ih h
          · split at h <;> simp at h

theorem route_concat_dot_ne_free : fs.route p (names ++ [['.']]) ≠ .ok (.free q) := by
  induction names generalizing p with
  | nil => simp [route_step, route_nil]
  | cons name rest ih =>
    rw [List.cons_append, route_step]
    split
    · exact ih
    split
    · exact ih
    split
    case isFalse => simp
    split
    · simp
    · exact ih
    · simp

theorem leads_of_makeDirectory (hlf : fs.LinkFree) (hp : path.isAbsolute)
    (h : fs.makeDirectory path = .ok fs') :
    ∃ d, Leads fs' path d := by
  obtain ⟨q, hq, rfl⟩ := makeDirectory_eq_ok h
  rw [find_eq_route hlf false (isAbsolute_trimSlashes hp)] at hq
  split at hq
  · simp at hq
  rw [lookupNames, steps_trimSlashes] at hq
  split at hq
  · exact absurd hq route_concat_dot_ne_free
  · refine ⟨q, hp, fs.clock, ?_⟩
    rw [← route_put_free hq]
    exact route_congr fun r _ => rfl

theorem leads_of_isDirectory (hlf : fs.LinkFree) (hp : path.isAbsolute) (h : fs.isDirectory path) :
    ∃ d, Leads fs path d := by
  obtain ⟨d, t, hd⟩ := isDirectory_iff.1 h
  exact ⟨d, .of_stat hlf hp hd⟩

theorem leads_of_attempt (hlf : fs.LinkFree) (hp : path.isAbsolute)
    (h : fs.attempt path = (fs', none)) :
    ∃ d, Leads fs' path d := by
  rw [attempt] at h
  split at h
  next made hmade =>
    obtain ⟨rfl, -⟩ := Prod.mk.inj h
    exact leads_of_makeDirectory hlf hp hmade
  · obtain ⟨rfl, hnone⟩ := Prod.mk.inj h
    refine leads_of_isDirectory hlf hp ?_
    by_contra hdir
    simp [hdir] at hnone

theorem leads_of_makeDirectories (hfs : fs.WellFormed) (hlf : fs.LinkFree) (hp : path.isAbsolute)
    {fuel : Nat} (h : fs.makeDirectories path fuel = (fs', none)) : ∃ d, Leads fs' path d := by
  cases fuel with
  | zero => simp [makeDirectories] at h
  | succ fuel =>
    rw [makeDirectories_succ hp] at h
    split at h
    · split at h
      · simp at h
      next parent hparent =>
        have hgrows := makeDirectories_grows hfs (Path.isAbsolute_parent? hp hparent) fuel
        split at h
        · simp at h
        next above heq =>
          rw [heq] at hgrows
          exact leads_of_attempt (hgrows.linkFree hlf) hp h
    · exact leads_of_attempt hlf hp h

theorem leads_of_makeAll (hfs : fs.WellFormed) (hlf : fs.LinkFree) (hp : path.isAbsolute)
    (h : fs.makeAll path = (fs', none)) : ∃ d, Leads fs' path d :=
  leads_of_makeDirectories hfs hlf hp h

theorem trimSlashes_ne_nil (hp : path.isAbsolute) : (trimSlashes path).text ≠ [] := by
  obtain ⟨t, ht⟩ := Path.isAbsolute_iff.1 (isAbsolute_trimSlashes hp)
  simp [ht]

theorem textRefusal?_of_makeDirectory (hp : path.isAbsolute) (h : fs.makeDirectory path = .ok fs') :
    textRefusal? path = none := by
  obtain ⟨q, hq, -⟩ := makeDirectory_eq_ok h
  have htrimmed := (find_of_ok hq).1
  obtain ⟨k, hk⟩ := trimSlashes_text path
  have hnul : path.text.contains (Char.ofNat 0) = false := by
    have hslash : Char.ofNat 0 ≠ '/' := by decide
    have hnul := (textRefusal?_eq_none.1 htrimmed).1
    rw [hk]
    simpa [List.mem_replicate, hslash] using hnul
  have hne : path.text ≠ [] := by
    rw [hk]
    simp [trimSlashes_ne_nil hp]
  rw [makeDirectory, hnul] at h
  split at h
  · simp at h
  next hshort => exact textRefusal?_eq_none.2 ⟨hnul, hne, by simpa using hshort⟩

theorem textRefusal?_of_attempt (hp : path.isAbsolute) (h : fs.attempt path = (fs', none)) :
    textRefusal? path = none := by
  rw [attempt] at h
  split at h
  next made hmade => exact textRefusal?_of_makeDirectory hp hmade
  · by_cases hdir : fs.isDirectory path
    · obtain ⟨d, t, hd⟩ := isDirectory_iff.1 hdir
      exact (find_of_ok (stat_eq_ok.1 hd)).1
    · simp [hdir] at h

theorem textRefusal?_of_makeAll (hp : path.isAbsolute) (h : fs.makeAll path = (fs', none)) :
    textRefusal? path = none := by
  rw [makeAll, makeDirectories_succ hp] at h
  split at h
  · split at h
    · simp at h
    split at h
    · simp at h
    · exact textRefusal?_of_attempt hp h
  · exact textRefusal?_of_attempt hp h

theorem makeDirectory_of_leads (hlf : fs.LinkFree) (h : Leads fs path d)
    (hnone : textRefusal? path = none) :
    fs.makeDirectory path = .error .exists_ := by
  obtain ⟨t, ht⟩ := h.route
  obtain ⟨k, hk⟩ := trimSlashes_text path
  have htrimmed : textRefusal? (trimSlashes path) = none :=
    textRefusal?_mono ⟨_, hk.symm⟩ (trimSlashes_ne_nil h.absolute) hnone
  have hfind : fs.find false (trimSlashes path) = .ok (.found d (.directory t)) := by
    rw [find_eq_route hlf false (isAbsolute_trimSlashes h.absolute), htrimmed]
    exact route_lookupNames.2 (by rw [steps_trimSlashes, ht])
  have hshort :
      ¬(!path.text.contains (Char.ofNat 0) && decide (maxPath ≤ Text.byteLength path.text)) =
        true := by
    obtain ⟨-, -, hshort⟩ := textRefusal?_eq_none.1 hnone
    simp [hshort]
  rw [makeDirectory, if_neg hshort, hfind]

theorem makeDirectories_of_leads (hlf : fs.LinkFree) (h : Leads fs path d)
    (hnone : textRefusal? path = none) (fuel : Nat) :
    fs.makeDirectories path (fuel + 1) = (fs, none) := by
  obtain ⟨t, ht⟩ := h.route
  have hfind : fs.find true path = .ok (.found d (.directory t)) := by
    rw [find_eq_route hlf true h.absolute, hnone]
    exact route_lookupNames.2 ht
  have hmade := makeDirectory_of_leads hlf h hnone
  have hdir : fs.isDirectory path := isDirectory_iff.2 ⟨d, t, stat_eq_ok.2 hfind⟩
  rw [makeDirectories_succ h.absolute, hmade]
  simp [attempt, hmade, hdir]

end FileSystem
end StaticSite
