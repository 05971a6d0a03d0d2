import StaticSite.Proofs.Lookup

/-! Looking up where there are no links. The names alone decide which places are looked at, so that
a lookup can be cut at any directory, and is the same in all states that agree on those places. -/
namespace StaticSite.FileSystem

variable {fs fs' : FileSystem} {p q d : Place} {n : Node} {name : Text} {names : List Text}
  {path : Path}

/-- Follows names from the directory at `p`; there are no links. -/
def route (fs : FileSystem) (p : Place) : List Text → Except IoError Spot
  | [] => .ok (.found p ((fs.at? p).getD (.directory 0)))
  | name :: rest =>
    if name = ['.'] then route fs p rest
    else if name = ['.', '.'] then route fs p.dropLast rest
    else if Fits name then
      match fs.at? (p ++ [name]) with
      | none => if rest = [] then .ok (.free (p ++ [name])) else .error .notFound
      | some (.directory _) => route fs (p ++ [name]) rest
      | some n => if rest = [] then .ok (.found (p ++ [name]) n) else .error .notDirectory
    else .error .nameTooLong

theorem route_nil (fs : FileSystem) (p : Place) :
    fs.route p [] = .ok (.found p ((fs.at? p).getD (.directory 0))) := rfl

theorem route_step (fs : FileSystem) (p : Place) (name : Text) (rest : List Text) :
    fs.route p (name :: rest) =
      if name = ['.'] then fs.route p rest
      else if name = ['.', '.'] then fs.route p.dropLast rest
      else if Fits name then
        match fs.at? (p ++ [name]) with
        | none => if rest = [] then .ok (.free (p ++ [name])) else .error .notFound
        | some (.directory _) => fs.route (p ++ [name]) rest
        | some n => if rest = [] then .ok (.found (p ++ [name]) n) else .error .notDirectory
      else .error .nameTooLong := rfl

theorem walk_eq_route (h : fs.LinkFree) (followLast : Bool) (links : Nat) (p : Place)
    (names : List Text) :
    fs.walk followLast links p names = fs.route p names := by
  induction names generalizing p with
  | nil => rw [walk, route_nil]
  | cons name rest ih =>
    rw [walk, route_step]
    by_cases hdot : name = ['.']
    · rw [if_pos hdot, if_pos hdot, ih]
    by_cases hdots : name = ['.', '.']
    · rw [if_neg hdot, if_neg hdot, if_pos hdots, if_pos hdots, ih]
    rw [if_neg hdot, if_neg hdot, if_neg hdots, if_neg hdots]
    by_cases hfits : Fits name
    case neg => rw [if_neg hfits, if_pos (Nat.not_le.1 hfits)]
    rw [if_pos hfits, if_neg (Nat.not_lt.2 hfits)]
    cases hat : fs.at? (p ++ [name]) with
    | none => rfl
    | some n =>
      cases n with
      | file => rfl
      | directory => exact ih _
      | link => exact absurd (h.isLink_eq_false hat) (by simp [Node.isLink])

theorem find_eq_route (h : fs.LinkFree) (followLast : Bool) (hp : path.isAbsolute) :
    fs.find followLast path = match textRefusal? path with
      | some e => .error e
      | none => fs.route [] (lookupNames path) := by
  rw [find_eq, if_pos hp]
  cases textRefusal? path with
  | some e => rfl
  | none => exact walk_eq_route h followLast maxLinks [] (lookupNames path)

/-- The places that a lookup looks at; it goes no further than the first that is no directory. -/
def visited (fs : FileSystem) (p : Place) : List Text → List Place
  | [] => [p]
  | name :: rest =>
    if name = ['.'] then visited fs p rest
    else if name = ['.', '.'] then visited fs p.dropLast rest
    else (p ++ [name]) :: match fs.at? (p ++ [name]) with
      | some (.directory _) => visited fs (p ++ [name]) rest
      | _ => []

theorem route_congr (h : ∀ r ∈ fs.visited p names, fs'.at? r = fs.at? r) :
    fs'.route p names = fs.route p names := by
  induction names generalizing p with
  | nil => rw [route_nil, route_nil, h p (by simp [visited])]
  | cons name rest ih =>
    rw [visited] at h
    rw [route_step, route_step]
    by_cases hdot : name = ['.']
    · rw [if_pos hdot] at h ⊢
      rw [if_pos hdot]
      exact ih h
    by_cases hdots : name = ['.', '.']
    · rw [if_neg hdot, if_pos hdots] at h ⊢
      rw [if_neg hdot, if_pos hdots]
      exact ih h
    rw [if_neg hdot, if_neg hdots] at h ⊢
    rw [if_neg hdot, if_neg hdots, h (p ++ [name]) (by simp)]
    cases hat : fs.at? (p ++ [name]) with
    | none => rfl
    | some n =>
      cases n with
      | file | link => rfl
      | directory t =>
        rw [hat] at h
        have hrest : fs'.route (p ++ [name]) rest = fs.route (p ++ [name]) rest :=
          ih fun r hr => h r (List.mem_cons_of_mem _ hr)
        simp only [hrest]

theorem readText_congr (hlf : fs.LinkFree) (hlf' : fs'.LinkFree) (hp : path.isAbsolute)
    (h : ∀ r ∈ fs.visited [] (lookupNames path), fs'.at? r = fs.at? r) :
    fs'.readText path = fs.readText path := by
  have hfind : fs'.find true path = fs.find true path := by
    rw [find_eq_route hlf' true hp, find_eq_route hlf true hp, route_congr h]
  rw [readText, readText, read, read, stat, stat, hfind]

theorem route_append {a b : List Text} {t : Nat}
    (h : fs.route p a = .ok (.found q (.directory t))) :
    fs.route p (a ++ b) = fs.route q b := by
  induction a generalizing p with
  | nil =>
    rw [route_nil, Except.ok.injEq, Spot.found.injEq] at h
    rw [List.nil_append, h.1]
  | cons name rest ih =>
    rw [route_step] at h
    rw [List.cons_append, route_step]
    by_cases hdot : name = ['.']
    · rw [if_pos hdot] at h ⊢
      exact ih h
    by_cases hdots : name = ['.', '.']
    · rw [if_neg hdot, if_pos hdots] at h ⊢
      exact ih h
    by_cases hfits : Fits name
    · rw [if_neg hdot, if_neg hdots, if_pos hfits] at h ⊢
      cases hat : fs.at? (p ++ [name]) with
      | none => cases rest <;> simp [hat] at h
      | some n =>
        cases n with
        | directory => exact ih (by simpa [hat] using h)
        | file | link => cases rest <;> simp [hat] at h
    · rw [if_neg hdot, if_neg hdots, if_neg hfits] at h
      simp at h

theorem at?_of_route (h : fs.WellFormed) {t : Nat} (hp : fs.at? p = some (.directory t))
    (hr : fs.route p names = .ok (.found q n)) : fs.at? q = some n := by
  induction names generalizing p t with
  | nil =>
    simp only [route_nil, hp, Option.getD_some, Except.ok.injEq, Spot.found.injEq] at hr
    rw [← hr.1, ← hr.2, hp]
  | cons name rest ih =>
    rw [route_step] at hr
    split at hr
    · exact ih hp hr
    split at hr
    · obtain ⟨u, hu⟩ := h.directory_dropLast hp
      exact ih hu hr
    split at hr
    case isFalse => simp at hr
    split at hr
    · split at hr <;> simp at hr
    next hat => exact ih hat hr
    next hat =>
      split at hr
      · simp only [Except.ok.injEq, Spot.found.injEq] at hr
        rw [← hr.1, ← hr.2, hat]
      · simp at hr

theorem at?_of_route_free (h : fs.route p names = .ok (.free q)) : fs.at? q = none := by
  induction names generalizing p with
  | nil => simp [route_nil] at h
  | cons name rest ih =>
    rw [route_step] at h
    split at h
    · exact ih h
    split at h
    · exact ih h
    split at h
    case isFalse => simp at h
    split at h
    next hat =>
      split at h
      · simp only [Except.ok.injEq, Spot.free.injEq] at h
        rw [← h, hat]
      · simp at h
    · exact ih h
    · split at h <;> simp at h

theorem route_mono (hmono : ∀ r t, fs.at? r = some (.directory t) →
      ∃ u, fs'.at? r = some (.directory u)) {t : Nat}
    (hp : ∃ u, fs.at? p = some (.directory u)) (hwf : fs.WellFormed)
    (h : fs.route p names = .ok (.found q (.directory t))) :
    ∃ u, fs'.route p names = .ok (.found q (.directory u)) := by
  induction names generalizing p with
  | nil =>
    obtain ⟨u, hu⟩ := hp
    obtain ⟨v, hv⟩ := hmono p u hu
    rw [route_nil, Except.ok.injEq, Spot.found.injEq] at h
    exact ⟨v, by rw [route_nil, hv, h.1]; rfl⟩
  | cons name rest ih =>
    rw [route_step] at h
    rw [route_step]
    by_cases hdot : name = ['.']
    · rw [if_pos hdot] at h ⊢
      exact ih hp h
    by_cases hdots : name = ['.', '.']
    · rw [if_neg hdot, if_pos hdots] at h ⊢
      obtain ⟨u, hu⟩ := hp
      exact ih (hwf.directory_dropLast hu) h
    by_cases hfits : Fits name
    · rw [if_neg hdot, if_neg hdots, if_pos hfits] at h ⊢
      cases hat : fs.at? (p ++ [name]) with
      | none => cases rest <;> simp [hat] at h
      | some n =>
        cases n with
        | directory u =>
          obtain ⟨v, hv⟩ := hmono _ u hat
          rw [hv]
          exact ih ⟨u, hat⟩ (by simpa [hat] using h)
        | file | link => cases rest <;> simp [hat] at h
    · rw [if_neg hdot, if_neg hdots, if_neg hfits] at h
      simp at h

theorem route_filter_dots {t : Nat} :
    fs.route p (names.filter (· ≠ ['.'])) = .ok (.found q (.directory t)) ↔
      fs.route p names = .ok (.found q (.directory t)) := by
  induction names generalizing p with
  | nil => rfl
  | cons name rest ih =>
    by_cases hdot : name = ['.']
    · rw [List.filter_cons_of_neg (by simp [hdot]), ih, route_step, if_pos hdot]
    · rw [List.filter_cons_of_pos (by simp [hdot]), route_step, route_step, if_neg hdot,
        if_neg hdot]
      split
      · exact ih
      split
      case isFalse => rfl
      cases hat : fs.at? (p ++ [name]) with
      | none =>
        simp only
        split <;> split <;> simp
      | some n =>
        cases n with
        | directory => exact ih
        | file | link =>
          simp only
          split <;> split <;> simp

theorem route_name (hname : ValidName name) :
    fs.route p [name] =
      if Fits name then .ok (match fs.at? (p ++ [name]) with
        | none => .free (p ++ [name])
        | some n => .found (p ++ [name]) n)
      else .error .nameTooLong := by
  rw [route_step, if_neg hname.ne_dot, if_neg hname.ne_dots]
  by_cases hfits : Fits name
  case neg => rw [if_neg hfits, if_neg hfits]
  rw [if_pos hfits, if_pos hfits]
  cases hat : fs.at? (p ++ [name]) with
  | none => rfl
  | some n =>
    cases n with
    | directory => simp [route_nil, hat]
    | file | link => rfl

theorem route_cons (hname : ValidName name) (hne : names ≠ []) :
    fs.route p (name :: names) =
      if Fits name then match fs.at? (p ++ [name]) with
        | none => .error .notFound
        | some (.directory _) => fs.route (p ++ [name]) names
        | some _ => .error .notDirectory
      else .error .nameTooLong := by
  rw [route_step, if_neg hname.ne_dot, if_neg hname.ne_dots]
  rcases fs.at? (p ++ [name]) with _ | (_ | _ | _) <;> simp [hne]

theorem route_dots (fs : FileSystem) (p : Place) :
    fs.route p [['.', '.']] = fs.route p.dropLast [] := by
  simp [route_step]

theorem route_of_valid {s : Spot} (hnames : ValidNames names) (h : fs.route p names = .ok s) :
    s = .free (p ++ names) ∨ ∃ n, s = .found (p ++ names) n := by
  induction names generalizing p with
  | nil =>
    rw [route_nil, Except.ok.injEq] at h
    exact .inr ⟨_, by rw [List.append_nil, ← h]⟩
  | cons name rest ih =>
    obtain ⟨hname, hrest⟩ := hnames.of_cons
    rw [route_step, if_neg hname.ne_dot, if_neg hname.ne_dots] at h
    have hcons : p ++ name :: rest = p ++ [name] ++ rest := by simp
    rw [hcons]
    split at h
    case isFalse => simp at h
    split at h
    · split at h
      next hnil =>
        rw [Except.ok.injEq] at h
        exact .inl (by rw [hnil, List.append_nil, ← h])
      · simp at h
    · exact ih hrest h
    · split at h
      next hnil =>
        rw [Except.ok.injEq] at h
        exact .inr ⟨_, by rw [hnil, List.append_nil, ← h]⟩
      · simp at h

theorem route_eq_found (h : fs.WellFormed) (hlf : fs.LinkFree) {t : Nat}
    (hp : fs.at? p = some (.directory t)) (hnames : ValidNames names) :
    fs.route p names = .ok (.found q n) ↔ q = p ++ names ∧ fs.at? q = some n ∧
    ∀ m ∈ names, Fits m := by
  have hreal {n : Node} (hat : fs.at? (p ++ names) = some n) :
      fs.route p names = if ∀ m ∈ names, Fits m then .ok (.found (p ++ names) n)
      else .error .nameTooLong := by
    rw [← walk_eq_route hlf true maxLinks]
    exact h.walk_real maxLinks hat fun _ => hlf.isLink_eq_false hat
  constructor
  · intro hr
    have hat := at?_of_route h hp hr
    cases route_of_valid hnames hr with
    | inl hs => simp at hs
    | inr hcase =>
      obtain ⟨m, hs⟩ := hcase
      obtain ⟨rfl, -⟩ := Spot.found.inj hs
      refine ⟨rfl, hat, ?_⟩
      rw [hreal hat] at hr
      split at hr
      next hfits => exact hfits
      · simp at hr
  · intro hex
    obtain ⟨rfl, hat, hfits⟩ := hex
    rw [hreal hat, if_pos hfits]

theorem route_concat_dots (h : fs.WellFormed) {t : Nat} (hp : fs.at? p = some (.directory t))
    {s : Spot} (hr : fs.route p (names ++ [['.', '.']]) = .ok s) :
    ∃ r u, s = .found r (.directory u) := by
  induction names generalizing p t with
  | nil =>
    obtain ⟨u, hu⟩ := h.directory_dropLast hp
    rw [List.nil_append, route_dots, route_nil, hu] at hr
    exact ⟨p.dropLast, u, by simpa using hr.symm⟩
  | cons name rest ih =>
    rw [List.cons_append, route_step] at hr
    split at hr
    · exact ih hp hr
    split at hr
    · obtain ⟨u, hu⟩ := h.directory_dropLast hp
      exact ih hu hr
    split at hr
    case isFalse => simp at hr
    split at hr
    · simp at hr
    next hat => exact ih hat hr
    · simp at hr

/-! ### Directories by their paths -/

structure Leads (fs : FileSystem) (path : Path) (d : Place) : Prop where
  absolute : path.isAbsolute
  route : ∃ t, fs.route [] path.steps = .ok (.found d (.directory t))

theorem Leads.mono (h : Leads fs path d) (hwf : fs.WellFormed)
    (hmono : ∀ r t, fs.at? r = some (.directory t) → ∃ u, fs'.at? r = some (.directory u)) :
    Leads fs' path d := by
  obtain ⟨t, ht⟩ := h.route
  exact ⟨h.absolute, route_mono hmono ⟨0, rfl⟩ hwf ht⟩

theorem Leads.at? (h : Leads fs path d) (hwf : fs.WellFormed) :
    ∃ t, fs.at? d = some (.directory t) := by
  obtain ⟨t, ht⟩ := h.route
  exact ⟨t, at?_of_route hwf (at?_nil fs) ht⟩

theorem route_lookupNames {t : Nat} :
    fs.route [] (lookupNames path) = .ok (.found d (.directory t)) ↔
      fs.route [] path.steps = .ok (.found d (.directory t)) := by
  rw [lookupNames]
  split
  · refine route_filter_dots.symm.trans (Iff.trans ?_ route_filter_dots)
    rw [List.filter_append]
    simp
  · rfl

theorem Leads.of_stat (hlf : fs.LinkFree) (hp : path.isAbsolute) {t : Nat}
    (h : fs.stat path = .ok (d, .directory t)) :
    Leads fs path d := by
  have hf := stat_eq_ok.1 h
  rw [find_eq_route hlf true hp] at hf
  split at hf
  · simp at hf
  · exact ⟨hp, t, route_lookupNames.1 hf⟩

theorem Leads.trimmed (h : Leads fs path d) : Leads fs path.trimmed d := by
  obtain ⟨t, ht⟩ := h.route
  refine ⟨Path.isAbsolute_trimmed h.absolute, t, ?_⟩
  rw [← route_filter_dots, Path.steps_trimmed h.absolute]
  exact route_filter_dots.2 ht

theorem lookupNames_descend (hp : path.isAbsolute) (hne : names ≠ [])
    (hnames : ∀ n ∈ names, Path.Plain n) :
    lookupNames (path.descend names) = path.steps ++ names := by
  obtain ⟨ms, m, rfl⟩ := (List.eq_nil_or_concat' names).resolve_left hne
  have hlast : (path.descend (ms ++ [m])).wantsDirectory = false := by
    rw [Path.descend_concat]
    exact Path.wantsDirectory_joinText (Path.isAbsolute_descend hp ms) (hnames m (by simp))
  rw [lookupNames, hlast, Path.steps_descend hp hnames]
  rfl

theorem Leads.find_descend (h : Leads fs path d) (hlf : fs.LinkFree) (followLast : Bool)
    (hne : names ≠ []) (hnames : ∀ n ∈ names, Path.Plain n) :
    fs.find followLast (path.descend names) = match textRefusal? (path.descend names) with
      | some e => .error e
      | none => fs.route d names := by
  obtain ⟨t, ht⟩ := h.route
  rw [find_eq_route hlf followLast (Path.isAbsolute_descend h.absolute names),
    lookupNames_descend h.absolute hne hnames, route_append ht]

theorem Leads.descend (h : Leads fs path d) (hwf : fs.WellFormed) (hlf : fs.LinkFree)
    (hnames : ValidNames names) (hfits : ∀ m ∈ names, Fits m) {t : Nat}
    (hat : fs.at? (d ++ names) = some (.directory t)) :
    Leads fs (path.descend names) (d ++ names) := by
  obtain ⟨u, hu⟩ := h.route
  obtain ⟨v, hv⟩ := h.at? hwf
  refine ⟨Path.isAbsolute_descend h.absolute names, t, ?_⟩
  rw [Path.steps_descend h.absolute hnames.plain, route_append hu]
  exact (route_eq_found hwf hlf hv hnames).2 ⟨rfl, hat, hfits⟩

/-- That no text or name on the way from a path down through names is refused. -/
def Admitted (path : Path) (names : List Text) : Prop :=
  textRefusal? (path.descend names) = none ∧ ∀ m ∈ names, Fits m

theorem Admitted.of_append (hp : path.isAbsolute) {more : List Text}
    (hnames : ValidNames (names ++ more)) (h : Admitted path (names ++ more)) :
    Admitted path names := by
  obtain ⟨hnone, hfits⟩ := h
  obtain ⟨hfirst, hmore⟩ := hnames.of_append
  refine ⟨textRefusal?_mono ?_ ?_ hnone, fun m hm => hfits m (List.mem_append_left _ hm)⟩
  · rw [Path.descend_append]
    exact Path.prefix_descend (Path.isAbsolute_descend hp names) hmore.plain
  · obtain ⟨t, ht⟩ := Path.isAbsolute_iff.1 (Path.isAbsolute_descend hp names)
    simp [ht]

theorem Leads.stat_descend_iff (h : Leads fs path d) (hwf : fs.WellFormed) (hlf : fs.LinkFree)
    (hne : names ≠ []) (hnames : ValidNames names) :
    fs.stat (path.descend names) = .ok (q, n) ↔ q = d ++ names ∧ fs.at? q = some n ∧
    Admitted path names := by
  obtain ⟨t, ht⟩ := h.at? hwf
  rw [stat_eq_ok, h.find_descend hlf true hne hnames.plain, Admitted]
  cases textRefusal? (path.descend names) with
  | some e => simp
  | none => simp [route_eq_found hwf hlf ht hnames]

theorem Leads.target_descend (h : Leads fs path d) (hwf : fs.WellFormed) (hlf : fs.LinkFree)
    {dirs : List Text} (hdirs : ValidNames dirs) (hname : Path.Plain name)
    (ht : fs.target (path.descend (dirs ++ [name])) = .ok q) :
    ValidName name ∧ q = d ++ (dirs ++ [name]) ∧ ∀ n, fs.at? q = some n →
    Admitted path (dirs ++ [name]) := by
  obtain ⟨t, hd⟩ := h.at? hwf
  have hplain : ∀ n ∈ dirs ++ [name], Path.Plain n := fun n hn =>
    (List.mem_append.1 hn).elim (hdirs.plain n) (hname.singleton n)
  have hfind := h.find_descend hlf true (by simp) hplain
  have hroute {s : Spot} (hs : fs.find true (path.descend (dirs ++ [name])) = .ok s) :
      textRefusal? (path.descend (dirs ++ [name])) = none ∧
      fs.route d (dirs ++ [name]) = .ok s := by
    rw [hfind] at hs
    split at hs
    · simp at hs
    next hnone => exact ⟨hnone, hs⟩
  obtain ⟨s, hs, hspot⟩ : ∃ s, fs.find true (path.descend (dirs ++ [name])) = .ok s ∧
      ((∃ c u, s = .found q (.file c u)) ∨ s = .free q) := by
    rw [target] at ht
    split at ht
    · simp at ht
    next c u hf => exact ⟨_, hf, .inl ⟨c, u, by rw [Except.ok.inj ht]⟩⟩
    · simp at ht
    next hf => exact ⟨_, hf, .inr (by rw [Except.ok.inj ht])⟩
  obtain ⟨hnone, hr⟩ := hroute hs
  -- Two dots at the end would lead to a directory, to which nothing is written.
  have hdots : name ≠ ['.', '.'] := by
    intro he
    subst he
    obtain ⟨r, u, rfl⟩ := route_concat_dots hwf hd hr
    rcases hspot with ⟨c, v, hspot⟩ | hspot <;> simp at hspot
  have hvalid : ValidName name := ⟨hname.ne_nil, hname.noSlash, hname.ne_dot, hdots⟩
  have hnames : ValidNames (dirs ++ [name]) := hdirs.append (by simpa [ValidNames] using hvalid)
  have hq : q = d ++ (dirs ++ [name]) := by
    rcases route_of_valid hnames hr with rfl | ⟨n, rfl⟩ <;> rcases hspot with ⟨c, v, hspot⟩
      | hspot <;> simp_all
  refine ⟨hvalid, hq, fun n hn => ⟨hnone, ?_⟩⟩
  cases hspot with
  | inl hcase =>
    obtain ⟨c, v, rfl⟩ := hcase
    exact ((route_eq_found hwf hlf hd hnames).1 hr).2.2
  | inr heq =>
    subst heq
    rw [at?_of_route_free hr] at hn
    simp at hn

end StaticSite.FileSystem
