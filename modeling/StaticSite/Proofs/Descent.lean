import StaticSite.Proofs.Making

/-! Making the directories on the way down from one that is there. The names are passed one by one:
what is missing is made, and a name that is too long, or a file, ends the descent. What a descent
passes and what ends it can be read off the state before it. -/
namespace StaticSite.FileSystem

variable {fs fs' mid : FileSystem} {p q d : Place} {ps qs : List Place} {name : Text}
  {names : List Text} {path : Path}

/-- The places that a descent passes, and what ends it. -/
def descent (fs : FileSystem) (p : Place) : List Text → List Place × Option IoError
  | [] => ([], none)
  | name :: rest =>
    if Fits name then
      if (fs.at? (p ++ [name])).all Node.isDirectory then
        let below := descent fs (p ++ [name]) rest
        ((p ++ [name]) :: below.1, below.2)
      else ([], some (if rest = [] then .exists_ else .notDirectory))
    else ([], some .nameTooLong)

theorem descent_nil (fs : FileSystem) (p : Place) : fs.descent p [] = ([], none) := rfl

theorem descent_of_not_fits (h : ¬Fits name) (names : List Text) :
    fs.descent p (name :: names) = ([], some .nameTooLong) := if_neg h

theorem descent_of_open (hfits : Fits name) (h : (fs.at? (p ++ [name])).all Node.isDirectory)
    (names : List Text) :
    fs.descent p (name :: names) =
      ((p ++ [name]) :: (fs.descent (p ++ [name]) names).1, (fs.descent (p ++ [name]) names).2) :=
  (if_pos hfits).trans (if_pos h)

theorem descent_of_shut (hfits : Fits name)
    (h : (fs.at? (p ++ [name])).all Node.isDirectory = false) (names : List Text) :
    fs.descent p (name :: names) = ([], some (if names = [] then .exists_ else .notDirectory)) :=
  (if_pos hfits).trans (if_neg (by simp [h]))

theorem descent_cons_eq_none :
    (fs.descent p (name :: names)).2 = none ↔
      Fits name ∧ (fs.at? (p ++ [name])).all Node.isDirectory ∧
      (fs.descent (p ++ [name]) names).2 = none := by
  by_cases hfits : Fits name
  case neg => simp [descent_of_not_fits hfits, hfits]
  cases hpass : (fs.at? (p ++ [name])).all Node.isDirectory with
  | true => simp [descent_of_open hfits hpass, hfits]
  | false => simp [descent_of_shut hfits hpass]

theorem mem_descent (h : q ∈ (fs.descent p names).1) :
    (∃ a, a ≠ [] ∧ a <+: names ∧ q = p ++ a) ∧ (fs.at? q).all Node.isDirectory := by
  induction names generalizing p with
  | nil => simp [descent_nil] at h
  | cons name rest ih =>
    by_cases hfits : Fits name
    case neg => simp [descent_of_not_fits hfits] at h
    cases hpass : (fs.at? (p ++ [name])).all Node.isDirectory with
    | false => simp [descent_of_shut hfits hpass] at h
    | true =>
      rw [descent_of_open hfits hpass] at h
      cases List.mem_cons.1 h with
      | inl heq =>
        subst heq
        exact ⟨⟨[name], by simp, by simp, rfl⟩, hpass⟩
      | inr h =>
        obtain ⟨⟨a, ha, hpre, rfl⟩, hat⟩ := ih h
        exact ⟨⟨name :: a, by simp, by simpa using hpre, by simp⟩, hat⟩

theorem descent_congr
    (h : ∀ a, a ≠ [] → a <+: names →
      (fs'.at? (p ++ a)).all Node.isDirectory = (fs.at? (p ++ a)).all Node.isDirectory) :
    fs'.descent p names = fs.descent p names := by
  induction names generalizing p with
  | nil => rfl
  | cons name rest ih =>
    have hrest : fs'.descent (p ++ [name]) rest = fs.descent (p ++ [name]) rest := by
      refine ih fun a ha hpre => ?_
      simpa using h (name :: a) (by simp) (by simpa using hpre)
    have hsame := h [name] (by simp) (by simp)
    by_cases hfits : Fits name
    case neg => rw [descent_of_not_fits hfits, descent_of_not_fits hfits]
    cases hpass : (fs.at? (p ++ [name])).all Node.isDirectory with
    | true => rw [descent_of_open hfits hpass, descent_of_open hfits (hsame.trans hpass), hrest]
    | false => rw [descent_of_shut hfits hpass, descent_of_shut hfits (hsame.trans hpass)]

theorem descent_append (h : (fs.descent p names).2 = none) (more : List Text) :
    fs.descent p (names ++ more) =
      ((fs.descent p names).1 ++ (fs.descent (p ++ names) more).1,
        (fs.descent (p ++ names) more).2) := by
  induction names generalizing p with
  | nil => simp [descent_nil]
  | cons name rest ih =>
    obtain ⟨hfits, hpass, hrest⟩ := descent_cons_eq_none.1 h
    rw [List.cons_append, descent_of_open hfits hpass, descent_of_open hfits hpass, ih hrest]
    simp

theorem fits_of_descent (h : (fs.descent p names).2 = none) : ∀ m ∈ names, Fits m := by
  induction names generalizing p with
  | nil => simp
  | cons name rest ih =>
    obtain ⟨hfits, -, hrest⟩ := descent_cons_eq_none.1 h
    exact List.forall_mem_cons.2 ⟨hfits, ih hrest⟩

theorem last_mem_descent (h : (fs.descent p names).2 = none) (hne : names ≠ []) :
    p ++ names ∈ (fs.descent p names).1 := by
  obtain ⟨ns, n, rfl⟩ := (List.eq_nil_or_concat' names).resolve_left hne
  induction ns generalizing p with
  | nil =>
    obtain ⟨hfits, hpass, -⟩ := descent_cons_eq_none.1 h
    simp [descent_of_open hfits hpass]
  | cons m ms ih =>
    obtain ⟨hfits, hpass, hrest⟩ := descent_cons_eq_none.1 h
    have hbelow := ih hrest (by simp)
    rw [List.cons_append, descent_of_open hfits hpass]
    refine List.mem_cons_of_mem _ ?_
    simpa using hbelow

/-- Below what is missing only a name can end a descent, and then nothing after it matters. -/
theorem descent_below_missing (hwf : fs.WellFormed) (hp : fs.at? p = none) (names : List Text) :
    (fs.descent p names).2 = none ∨ ∀ more, fs.descent p (names ++ more) = fs.descent p names := by
  induction names generalizing p with
  | nil => exact .inl rfl
  | cons name rest ih =>
    have hnone : fs.at? (p ++ [name]) = none := hwf.none_below hp
    by_cases hfits : Fits name
    case neg =>
      refine .inr fun more => ?_
      rw [List.cons_append, descent_of_not_fits hfits, descent_of_not_fits hfits]
    have hdescent := descent_of_open hfits
      (show (fs.at? (p ++ [name])).all Node.isDirectory by rw [hnone]; rfl)
    cases ih hnone with
    | inl hpass =>
      refine .inl ?_
      rw [hdescent]
      exact hpass
    | inr hend =>
      refine .inr fun more => ?_
      rw [List.cons_append, hdescent, hdescent, hend]

/-- How the lookup of one more name goes where a descent has come to. -/
inductive Reached (fs : FileSystem) (p : Place) (names : List Text) (name : Text) : Prop
  | there (passed : (fs.descent p names).2 = none)
      (directory : ∃ t, fs.at? (p ++ names) = some (.directory t))
  | missing (passed : (fs.descent p names).2 = none) (absent : fs.at? (p ++ names) = none)
      (route : fs.route p (names ++ [name]) = .error .notFound)
  | stopped (e : IoError) (ended : fs.descent p (names ++ [name]) =
      ((fs.descent p names).1, some e))
      (route : fs.route p (names ++ [name]) = .error e) (found : e ≠ .notFound)
      (present : ∀ q ∈ (fs.descent p names).1, ∃ t, fs.at? q = some (.directory t))
  | beyond (e : IoError) (ended : (fs.descent p names).2 = some e)
      (same : fs.descent p (names ++ [name]) = fs.descent p names)
      (route : fs.route p (names ++ [name]) = .error .notFound)

theorem reached_of_missing (hwf : fs.WellFormed) {n : Text} (hn : ValidName n) (hfits : Fits n)
    (hat : fs.at? (p ++ [n]) = none) (names : List Text) (name : Text) :
    Reached fs p (n :: names) name := by
  have hroute : fs.route p (n :: (names ++ [name])) = .error .notFound := by
    rw [route_cons hn (by simp), if_pos hfits, hat]
  have hdescent := descent_of_open hfits
    (show (fs.at? (p ++ [n])).all Node.isDirectory by rw [hat]; rfl)
  cases hend : (fs.descent (p ++ [n]) names).2 with
  | none =>
    refine .missing (by rw [hdescent, hend]) ?_ hroute
    rw [show p ++ n :: names = p ++ [n] ++ names by simp]
    exact hwf.none_below hat
  | some e =>
    refine .beyond e (by rw [hdescent, hend]) ?_ hroute
    cases descent_below_missing hwf hat names with
    | inl h => simp [hend] at h
    | inr h => rw [List.cons_append, hdescent, hdescent, h]

theorem Reached.cons {n : Text} {u : Nat} (h : Reached fs (p ++ [n]) names name) (hn : ValidName n)
    (hfits : Fits n) (hat : fs.at? (p ++ [n]) = some (.directory u)) :
    Reached fs p (n :: names) name := by
  have hroute : fs.route p (n :: (names ++ [name])) = fs.route (p ++ [n]) (names ++ [name]) := by
    rw [route_cons hn (by simp), if_pos hfits, hat]
  have hdescent := descent_of_open hfits
    (show (fs.at? (p ++ [n])).all Node.isDirectory by rw [hat]; rfl)
  have hcons : p ++ n :: names = p ++ [n] ++ names := by simp
  cases h with
  | there passed directory =>
    exact .there (by rw [hdescent]; exact passed) (by rw [hcons]; exact directory)
  | missing passed absent route =>
    exact .missing (by rw [hdescent]; exact passed) (by rw [hcons]; exact absent)
      (hroute.trans route)
  | stopped e ended route found present =>
    refine .stopped e ?_ (hroute.trans route) found ?_
    · rw [List.cons_append, hdescent, hdescent, ended]
    · intro q hq
      rw [hdescent] at hq
      cases List.mem_cons.1 hq with
      | inl heq =>
        subst heq
        exact ⟨u, hat⟩
      | inr hq => exact present q hq
  | beyond e ended same route =>
    refine .beyond e (by rw [hdescent]; exact ended) ?_ (hroute.trans route)
    rw [List.cons_append, hdescent, hdescent, same]

theorem reached (hwf : fs.WellFormed) {t : Nat} (hp : fs.at? p = some (.directory t))
    (hnames : ValidNames names) (name : Text) : Reached fs p names name := by
  induction names generalizing p t with
  | nil => exact .there rfl ⟨t, by simpa using hp⟩
  | cons n rest ih =>
    obtain ⟨hn, hrest⟩ := hnames.of_cons
    have hroute : fs.route p (n :: (rest ++ [name])) = _ := route_cons hn (by simp)
    by_cases hfits : Fits n
    case neg =>
      rw [if_neg hfits] at hroute
      have hdescent (ns : List Text) : fs.descent p (n :: ns) = _ := descent_of_not_fits hfits ns
      refine .stopped .nameTooLong ?_ hroute (by simp) ?_
      · rw [List.cons_append, hdescent, hdescent]
      · simp [hdescent]
    rw [if_pos hfits] at hroute
    cases hat : fs.at? (p ++ [n]) with
    | none => exact reached_of_missing hwf hn hfits hat rest name
    | some node =>
      cases node with
      | directory u => exact (ih hat hrest).cons hn hfits hat
      | file | link =>
        rw [hat] at hroute
        have hdescent := descent_of_shut hfits (show (fs.at? (p ++ [n])).all Node.isDirectory =
          false by rw [hat]; rfl)
        refine .stopped .notDirectory ?_ hroute (by simp) ?_
        · rw [List.cons_append, hdescent, hdescent]
          simp
        · simp [hdescent]

/-! ### Directories on the way -/

/-- That directories are now at some places where nothing was in the way, and nothing else
changed. -/
structure Planted (fs fs' : FileSystem) (ps : List Place) : Prop where
  grows : fs.Grows fs'
  other : ∀ q, q ∉ ps → fs'.at? q = fs.at? q
  made : ∀ q ∈ ps, ∃ t, fs'.at? q = some (.directory t)

theorem Planted.refl (hwf : fs.WellFormed) (h : ∀ q ∈ ps, ∃ t, fs.at? q = some (.directory t)) :
    Planted fs fs ps :=
  ⟨.refl hwf, fun _ _ => rfl, h⟩

theorem planted_of_directory (hwf : fs.WellFormed)
    (h : ∃ u, fs.at? (p ++ names) = some (.directory u)) :
    Planted fs fs (fs.descent p names).1 := by
  refine .refl hwf fun q hq => ?_
  obtain ⟨⟨a, -, ⟨r, rfl⟩, rfl⟩, -⟩ := mem_descent hq
  obtain ⟨u, hu⟩ := h
  by_cases hr : r = []
  · subst hr
    exact ⟨u, by simpa using hu⟩
  · exact hwf.directory_above hr (by simpa using hu)

theorem Planted.descent_last (h : Planted fs mid (fs.descent p names).1) (name : Text) :
    mid.descent (p ++ names) [name] = fs.descent (p ++ names) [name] := by
  have hat : mid.at? (p ++ names ++ [name]) = fs.at? (p ++ names ++ [name]) := by
    refine h.other _ fun hq => ?_
    obtain ⟨⟨a, -, hpre, heq⟩, -⟩ := mem_descent hq
    rw [List.append_assoc, List.append_cancel_left_eq] at heq
    have := hpre.length_le
    rw [← heq, List.length_append, List.length_singleton] at this
    omega
  rw [descent, descent, hat]
  rfl

theorem Planted.trans (h : Planted fs mid ps) (h' : Planted mid fs' qs) :
    Planted fs fs' (ps ++ qs) := by
  refine ⟨h.grows.trans h'.grows, fun q hq => ?_, fun q hq => ?_⟩
  · rw [List.mem_append, not_or] at hq
    rw [h'.other q hq.2, h.other q hq.1]
  · cases List.mem_append.1 hq with
    | inl hq =>
      obtain ⟨t, ht⟩ := h.made q hq
      exact h'.grows.directory q t ht
    | inr hq => exact h'.made q hq

theorem attempt_name (hwf : fs.WellFormed) (hp : path.isAbsolute) (htrim : trimSlashes path = path)
    (hname : ValidName name) (hfind : ∀ followLast, fs.find followLast path = fs.route p [name]) :
    (fs.attempt path).2 = (fs.descent p [name]).2 ∧
    Planted fs (fs.attempt path).1 (fs.descent p [name]).1 := by
  have hmade (followLast : Bool) := (hfind followLast).trans (route_name hname)
  have hgrows := attempt_grows hwf hp
  by_cases hfits : Fits name
  case neg =>
    have hmake : fs.makeDirectory path = .error .nameTooLong := by
      rw [makeDirectory_of_trimmed fs htrim, hmade, if_neg hfits]
    have hdir : fs.isDirectory path = false := by
      rw [isDirectory, node?, stat, hmade, if_neg hfits]
      rfl
    rw [attempt, hmake, descent, if_neg hfits]
    simp only [hdir]
    exact ⟨rfl, .refl hwf (by simp)⟩
  simp only [if_pos hfits] at hmade
  rw [descent, if_pos hfits]
  cases hat : fs.at? (p ++ [name]) with
  | none =>
    have hmake : fs.makeDirectory path =
        .ok ((fs.put (p ++ [name]) (.directory fs.clock)).tick) := by
      rw [makeDirectory_of_trimmed fs htrim, hmade, hat]
    rw [attempt, hmake] at hgrows ⊢
    refine ⟨rfl, hgrows, fun q hq => ?_, fun q hq => ?_⟩
    · have hne : q ≠ p ++ [name] := by simpa [descent] using hq
      rw [at?_tick, at?_put_of_ne fs _ hne]
    · have heq : q = p ++ [name] := by simpa [descent] using hq
      exact ⟨_, by rw [heq, at?_tick, at?_put_self fs (by simp)]⟩
  | some node =>
    have hmake : fs.makeDirectory path = .error .exists_ := by
      rw [makeDirectory_of_trimmed fs htrim, hmade, hat]
    have hstat : fs.stat path = .ok (p ++ [name], node) := stat_eq_ok.2 (by rw [hmade, hat])
    have hdir : fs.isDirectory path = node.isDirectory := by
      rw [isDirectory, node?, hstat]
      rfl
    rw [attempt, hmake]
    simp only [hdir]
    cases node with
    | directory t => exact ⟨rfl, .refl hwf fun q hq => ⟨t, by simp_all [descent, Node.isDirectory]⟩⟩
    | file | link => exact ⟨rfl, .refl hwf (by simp [Node.isDirectory])⟩

section Concat

variable {ns : List Text} {n : Text}

theorem trimSlashes_descend_concat (hp : path.isAbsolute) (ns : List Text) (hn : Path.Plain n) :
    trimSlashes (path.descend (ns ++ [n])) = path.descend (ns ++ [n]) := by
  rw [Path.descend_concat]
  exact trimSlashes_of_not_wantsDirectory
    (Path.wantsDirectory_joinText (Path.isAbsolute_descend hp ns) hn)

theorem Leads.find_concat (h : Leads fs path d) (hlf : fs.LinkFree)
    (hnames : ValidNames (ns ++ [n])) (hnone : textRefusal? (path.descend (ns ++ [n])) = none)
    (followLast : Bool) :
    fs.find followLast (path.descend (ns ++ [n])) = fs.route d (ns ++ [n]) := by
  rw [h.find_descend hlf followLast (by simp) hnames.plain, hnone]

theorem Leads.attempt_of_error (h : Leads fs path d) (hlf : fs.LinkFree)
    (hnames : ValidNames (ns ++ [n])) (hnone : textRefusal? (path.descend (ns ++ [n])) = none)
    {e : IoError} (he : fs.route d (ns ++ [n]) = .error e) :
    fs.makeDirectory (path.descend (ns ++ [n])) = .error e ∧
    fs.attempt (path.descend (ns ++ [n])) = (fs, some e) := by
  have hmake : fs.makeDirectory (path.descend (ns ++ [n])) = .error e := by
    rw [makeDirectory_of_trimmed fs
      (trimSlashes_descend_concat h.absolute ns (hnames.plain n (by simp))),
      h.find_concat hlf hnames hnone, he]
  have hdir : fs.isDirectory (path.descend (ns ++ [n])) = false := by
    rw [isDirectory, node?, stat, h.find_concat hlf hnames hnone, he]
    rfl
  refine ⟨hmake, ?_⟩
  rw [attempt, hmake]
  simp [hdir]

theorem Leads.attempt_of_directory (h : Leads fs path d) (hwf : fs.WellFormed) (hlf : fs.LinkFree)
    (hnames : ValidNames (ns ++ [n])) (hnone : textRefusal? (path.descend (ns ++ [n])) = none)
    (hfits : ∀ m ∈ ns, Fits m) (hat : ∃ u, fs.at? (d ++ ns) = some (.directory u)) :
    fs.makeDirectory (path.descend (ns ++ [n])) ≠ .error .notFound ∧
      (fs.attempt (path.descend (ns ++ [n]))).2 = (fs.descent (d ++ ns) [n]).2 ∧
        Planted fs (fs.attempt (path.descend (ns ++ [n]))).1 (fs.descent (d ++ ns) [n]).1 := by
  obtain ⟨hns, hn⟩ := hnames.of_append
  have hname : ValidName n := hn n (by simp)
  obtain ⟨t, ht⟩ := h.at? hwf
  obtain ⟨u, hu⟩ := hat
  have hto := (route_eq_found hwf hlf ht hns).2 ⟨rfl, hu, hfits⟩
  have htrim := trimSlashes_descend_concat h.absolute ns hname.plain
  have hfind (followLast : Bool) :
      fs.find followLast (path.descend (ns ++ [n])) = fs.route (d ++ ns) [n] := by
    rw [h.find_concat hlf hnames hnone, route_append hto]
  refine ⟨fun hmake => ?_, attempt_name hwf (Path.isAbsolute_descend h.absolute _) htrim hname
    hfind⟩
  rw [makeDirectory_of_trimmed fs htrim, hfind, route_name hname] at hmake
  split at hmake
  next e heq =>
    split at heq
    · simp at heq
    · simp_all
  · simp at hmake
  · simp at hmake

end Concat

theorem Leads.makeDirectories_descend (hwf : fs.WellFormed) (hlf : fs.LinkFree)
    (h : Leads fs path d) (hnames : ValidNames names) {fuel : Nat} (hfuel : names.length < fuel)
    (hnone : textRefusal? (path.descend names).trimmed = none) :
    (fs.makeDirectories (path.descend names).trimmed fuel).2 = (fs.descent d names).2 ∧
      Planted fs (fs.makeDirectories (path.descend names).trimmed fuel).1
      (fs.descent d names).1 := by
  -- From the last name up, as the directories are made: the one for a name is tried first, and
  -- tried again once those above it are there.
  induction names using List.reverseRecOn generalizing fuel with
  | nil =>
    obtain ⟨k, rfl⟩ := Nat.exists_eq_add_one_of_ne_zero (Nat.pos_iff_ne_zero.1 hfuel)
    rw [Path.descend_nil] at hnone ⊢
    rw [makeDirectories_of_leads hlf h.trimmed hnone]
    exact ⟨rfl, .refl hwf (by simp [descent])⟩
  | append_singleton ns n ih =>
    obtain ⟨hns, hn⟩ := hnames.of_append
    have hname : ValidName n := hn n (by simp)
    have htrimmed : (path.descend (ns ++ [n])).trimmed = path.descend (ns ++ [n]) := by
      rw [Path.descend_concat, Path.trimmed_joinText (Path.isAbsolute_descend h.absolute ns)
        hname.plain]
    have hparent := Path.parent?_descend_concat h.absolute ns hname.plain
    rw [htrimmed] at hnone ⊢
    have habove := textRefusal?_above h.absolute hname.plain hnone
    rw [List.length_append, List.length_singleton] at hfuel
    obtain ⟨k, rfl⟩ := Nat.exists_eq_add_one_of_ne_zero
      (Nat.pos_iff_ne_zero.1 (Nat.zero_lt_of_lt hfuel))
    have hup := ih hns (Nat.lt_of_succ_lt_succ hfuel) habove
    obtain ⟨t, ht⟩ := h.at? hwf
    rw [makeDirectories_succ (Path.isAbsolute_descend h.absolute _)]
    cases reached hwf ht hns n with
    | there passed directory =>
      obtain ⟨hfound, herror, hplanted⟩ :=
        h.attempt_of_directory hwf hlf hnames hnone (fits_of_descent passed) directory
      rw [descent_append passed]
      split
      next hmake => exact absurd hmake hfound
      · exact ⟨herror, (planted_of_directory hwf directory).trans hplanted⟩
    | missing passed absent route =>
      have hne : ns ≠ [] := by
        intro he
        subst he
        simp [ht] at absent
      rw [(h.attempt_of_error hlf hnames hnone route).1]
      simp only [hparent]
      rw [passed] at hup
      cases hmk : fs.makeDirectories (path.descend ns).trimmed k with
      | mk above e =>
        rw [hmk] at hup
        obtain ⟨rfl, hplanted⟩ := hup
        obtain ⟨-, herror, hmade⟩ := (h.mono hwf hplanted.grows.directory).attempt_of_directory
          hplanted.grows.wellFormed (hplanted.grows.linkFree hlf) hnames hnone
            (fits_of_descent passed) (hplanted.made _ (last_mem_descent passed hne))
        rw [hplanted.descent_last] at herror hmade
        rw [descent_append passed]
        exact ⟨herror, hplanted.trans hmade⟩
    | stopped e ended route found present =>
      obtain ⟨hmake, hdone⟩ := h.attempt_of_error hlf hnames hnone route
      rw [hmake, ended]
      cases e with
      | notFound => exact absurd rfl found
      | _ =>
        simp only [hdone]
        exact ⟨trivial, .refl hwf present⟩
    | beyond e ended same route =>
      rw [(h.attempt_of_error hlf hnames hnone route).1, same]
      simp only [hparent]
      rw [ended] at hup
      cases hmk : fs.makeDirectories (path.descend ns).trimmed k with
      | mk above e' =>
        rw [hmk] at hup
        obtain ⟨rfl, hplanted⟩ := hup
        exact ⟨ended.symm, hplanted⟩

end StaticSite.FileSystem
