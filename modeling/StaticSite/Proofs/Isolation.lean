import StaticSite.Proofs.Delivery
import StaticSite.Proofs.Documents
import StaticSite.Proofs.Reads

/-! When the build of one file does not see that of another. What it looks at are its document, what
it reads, the way to its output and the output; in a state that differs from another only elsewhere,
or in that directories on the way are there already, it has the same result and delivers the
same. -/
namespace StaticSite

open FileSystem

namespace Path

def follow (p : Place) (name : Text) : Place :=
  if name = ['.'] then p else if name = ['.', '.'] then p.dropLast else p ++ [name]

/-- The place that the names of an absolute path lead to where there are no links. -/
def place (p : Path) : Place := p.steps.foldl follow []

theorem foldl_follow_valid (p : Place) {names : List Text} (h : ValidNames names) :
    names.foldl follow p = p ++ names := by
  induction names generalizing p with
  | nil => simp
  | cons n ns ih =>
    obtain ⟨hn, hns⟩ := h.of_cons
    rw [List.foldl_cons, ih _ hns, follow, if_neg hn.ne_dot, if_neg hn.ne_dots]
    simp

theorem place_descend {p : Path} (hp : p.isAbsolute) {names : List Text}
    (h : ∀ n ∈ names, Plain n) :
    (p.descend names).place = names.foldl follow p.place := by
  rw [place, steps_descend hp h, List.foldl_append, place]

theorem place_join {p : Path} (hp : p.isAbsolute) {names : List Text} (hne : names ≠ [])
    (h : ValidNames names) :
    (p.join (.ofNames names)).place = p.place ++ names := by
  rw [join_ofNames _ hne h.plain, place_descend hp h.plain, foldl_follow_valid _ h]

end Path

/-- What a node is and holds, whenever it was made. -/
def Node.timeless : Node → Node
  | .file content _ => .file content 0
  | .directory _ => .directory 0
  | .link target => .link target

/-- What an action puts at a place. A document that is copied onto itself is emptied. -/
def Action.bytes (origin : Place) (content : Bytes) : Action → Place → Bytes
  | .write page, _ => Text.Utf8.encode page.text
  | _, q => if q = origin then [] else content

def Action.refused (input output : Path) : Action → IoError → BuildError
  | .write _ => .write output
  | _ => .copy input output

def Action.outcome : Action → Outcome
  | .skip => .skipped
  | .write _ => .transformed
  | _ => .copied

def Spot.place : Spot → Place
  | .found p _ => p
  | .free p => p

namespace FileSystem

variable {fs cur next one : FileSystem} {d p q r : Place} {ps : List Place} {dirs names : List Text}
  {o : Text} {path : Path}

theorem place_of_route {s : Spot} (h : fs.route p names = .ok s) :
    s.place = names.foldl Path.follow p := by
  induction names generalizing p with
  | nil =>
    obtain rfl := Except.ok.inj h
    rfl
  | cons name rest ih =>
    rw [route_step] at h
    rw [List.foldl_cons, Path.follow]
    split at h
    next hdot =>
      rw [if_pos hdot]
      exact ih h
    next hdot =>
      rw [if_neg hdot]
      split at h
      next hdots =>
        rw [if_pos hdots]
        exact ih h
      next hdots =>
        rw [if_neg hdots]
        split at h
        case isFalse => simp at h
        split at h
        · split at h
          next hrest =>
            obtain rfl := Except.ok.inj h
            rw [hrest]
            rfl
          · simp at h
        · exact ih h
        · split at h
          next hrest =>
            obtain rfl := Except.ok.inj h
            rw [hrest]
            rfl
          · simp at h

theorem Leads.place_eq (h : Leads fs path d) : path.place = d := by
  obtain ⟨t, ht⟩ := h.route
  exact (place_of_route ht).symm

theorem route_of_append {a b : List Text} {s : Spot} {t : Nat} (hwf : fs.WellFormed)
    (hp : fs.at? p = some (.directory t)) (hb : b ≠ []) (h : fs.route p (a ++ b) = .ok s) :
    ∃ q u, fs.route p a = .ok (.found q (.directory u)) := by
  induction a generalizing p t with
  | nil => exact ⟨p, t, by rw [route_nil, hp]; rfl⟩
  | cons name rest ih =>
    rw [List.cons_append, route_step] at h
    rw [route_step]
    by_cases hdot : name = ['.']
    · rw [if_pos hdot] at h ⊢
      exact ih hp h
    by_cases hdots : name = ['.', '.']
    · rw [if_neg hdot, if_pos hdots] at h ⊢
      obtain ⟨u, hu⟩ := hwf.directory_dropLast hp
      exact ih hu h
    by_cases hfits : Fits name
    · rw [if_neg hdot, if_neg hdots, if_pos hfits] at h ⊢
      cases hat : fs.at? (p ++ [name]) with
      | none => simp [hat, hb] at h
      | some n =>
        cases n with
        | directory u => exact ih hat (by simpa [hat] using h)
        | file | link => simp [hat, hb] at h
    · rw [if_neg hdot, if_neg hdots, if_neg hfits] at h
      simp at h

theorem leads_of_stat_descend (hwf : fs.WellFormed) (hlf : fs.LinkFree) (hp : path.isAbsolute)
    (hne : names ≠ []) (hnames : ValidNames names) {n : Node}
    (h : fs.stat (path.descend names) = .ok (q, n)) : Leads fs path path.place := by
  have hfind := stat_eq_ok.1 h
  rw [find_eq_route hlf true (Path.isAbsolute_descend hp names),
    lookupNames_descend hp hne hnames.plain] at hfind
  split at hfind
  · simp at hfind
  · obtain ⟨d, u, hd⟩ := route_of_append hwf (at?_nil fs) hne hfind
    have hleads : Leads fs path d := ⟨hp, u, hd⟩
    rwa [hleads.place_eq]

theorem Leads.stat_descend_dots (h : Leads fs path d) (hwf : fs.WellFormed) (hlf : fs.LinkFree)
    (hdirs : ValidNames dirs) {n : Node} :
    fs.stat (path.descend (dirs ++ [['.', '.']])) = .ok (q, n) ↔
      textRefusal? (path.descend (dirs ++ [['.', '.']])) = none ∧ (∀ m ∈ dirs, Fits m) ∧
        (∃ t, fs.at? (d ++ dirs) = some (.directory t)) ∧ q = (d ++ dirs).dropLast ∧
        fs.at? q = some n := by
  obtain ⟨t, ht⟩ := h.at? hwf
  have hplain : ∀ n ∈ dirs ++ [['.', '.']], Path.Plain n := fun n hn =>
    (List.mem_append.1 hn).elim (hdirs.plain n) (Path.plain_dots.singleton n)
  have hup {u : Nat} (hu : fs.at? (d ++ dirs) = some (.directory u)) (hfits : ∀ m ∈ dirs, Fits m) :
      fs.route d (dirs ++ [['.', '.']]) = fs.route (d ++ dirs).dropLast [] := by
    rw [route_append ((route_eq_found hwf hlf ht hdirs).2 ⟨rfl, hu, hfits⟩), route_dots]
  rw [stat_eq_ok, h.find_descend hlf true (by simp) hplain]
  cases textRefusal? (path.descend (dirs ++ [['.', '.']])) with
  | some e => simp
  | none =>
    simp only [true_and]
    constructor
    · intro hr
      obtain ⟨r, u, hto⟩ := route_of_append hwf ht (by simp) hr
      obtain ⟨rfl, hu, hfits⟩ := (route_eq_found hwf hlf ht hdirs).1 hto
      obtain ⟨v, hv⟩ := hwf.directory_dropLast hu
      rw [hup hu hfits, FileSystem.route_nil, hv, Option.getD_some, Except.ok.injEq,
        Spot.found.injEq] at hr
      exact ⟨hfits, ⟨u, hu⟩, hr.1.symm, by rw [← hr.1, ← hr.2, hv]⟩
    · intro hcase
      obtain ⟨hfits, ⟨u, hu⟩, rfl, hn⟩ := hcase
      rw [hup hu hfits, FileSystem.route_nil, hn]
      rfl

/-! ### States alike around an output -/

/-- That a state has all directories of another, and is the same outside of `d` and at or below `p`.
Between the two it may have directories where the other has nothing. A directory at `p` was last
changed at the same time. -/
structure Alike (d p : Place) (fs cur : FileSystem) : Prop where
  wellFormed : cur.WellFormed
  linkFree : cur.LinkFree
  directory : ∀ r t, fs.at? r = some (.directory t) → ∃ u, cur.at? r = some (.directory u)
  outside : ∀ q, (d <+: q → q = d) → cur.at? q = fs.at? q
  below : ∀ q, p <+: q → cur.at? q = fs.at? q
  above : ∀ q, q <+: p → cur.at? q = fs.at? q ∨ fs.at? q = none ∧
    ∃ t, cur.at? q = some (.directory t)
  stamp : ∀ n, fs.at? p = some n → cur.stamp? p = fs.stamp? p

theorem Alike.refl (hwf : fs.WellFormed) (hlf : fs.LinkFree) : Alike d p fs fs :=
  ⟨hwf, hlf, fun _ t ht => ⟨t, ht⟩, fun _ _ => rfl, fun _ _ => rfl, fun _ _ => .inl rfl,
    fun _ _ => rfl⟩

theorem Alike.all_isDirectory (h : Alike d p fs cur) (hq : q <+: p ∨ p <+: q) :
    (cur.at? q).all Node.isDirectory = (fs.at? q).all Node.isDirectory := by
  cases hq with
  | inl hq =>
    cases h.above q hq with
    | inl heq => rw [heq]
    | inr hcase =>
      obtain ⟨hnone, t, ht⟩ := hcase
      rw [hnone, ht]
      rfl
  | inr hq => rw [h.below q hq]

theorem comparable_follow {a : List Text} (ha : a <+: dirs) (ho : Path.Plain o) :
    d ++ a <+: Path.follow (d ++ dirs) o ∨ Path.follow (d ++ dirs) o <+: d ++ a := by
  have hpre : d ++ a <+: d ++ dirs := (List.prefix_append_right_inj d).2 ha
  rw [Path.follow, if_neg ho.ne_dot]
  split
  · exact List.prefix_or_prefix_of_prefix hpre (List.dropLast_prefix _)
  · exact .inl (hpre.trans (List.prefix_append _ _))

theorem Leads.place_of_output (hd : Leads fs path d) (hwf : fs.WellFormed) (hlf : fs.LinkFree)
    (hdirs : ValidNames dirs) (ho : Path.Plain o) {n : Node}
    (h : fs.stat (path.descend (dirs ++ [o])) = .ok (q, n)) :
    q = Path.follow (d ++ dirs) o ∧ fs.at? q = some n := by
  by_cases hdots : o = ['.', '.']
  · subst hdots
    obtain ⟨-, -, -, rfl, hat⟩ := (hd.stat_descend_dots hwf hlf hdirs).1 h
    exact ⟨by simp [Path.follow], hat⟩
  · have hname : ValidName o := ⟨ho.ne_nil, ho.noSlash, ho.ne_dot, hdots⟩
    have hnames : ValidNames (dirs ++ [o]) := hdirs.append (by simpa [ValidNames] using hname)
    obtain ⟨rfl, hat, -⟩ := (hd.stat_descend_iff hwf hlf (by simp) hnames).1 h
    exact ⟨by simp [Path.follow, hdots, ho.ne_dot], hat⟩

theorem Alike.stat_output (h : Alike d (Path.follow (d ++ dirs) o) fs cur) (hwf : fs.WellFormed)
    (hlf : fs.LinkFree) (hd : Leads fs path d) (hdirs : ValidNames dirs) (ho : Path.Plain o)
    {n : Node} :
    cur.stat (path.descend (dirs ++ [o])) = .ok (q, n) ↔
    fs.stat (path.descend (dirs ++ [o])) = .ok (q, n) := by
  have hd' := hd.mono hwf h.directory
  by_cases hdots : o = ['.', '.']
  · subst hdots
    have hbelow : cur.at? (d ++ dirs) = fs.at? (d ++ dirs) :=
      h.below _ (by simpa [Path.follow] using List.dropLast_prefix _)
    have hend : cur.at? (d ++ dirs).dropLast = fs.at? (d ++ dirs).dropLast :=
      h.below _ (by simp [Path.follow])
    rw [hd'.stat_descend_dots h.wellFormed h.linkFree hdirs, hd.stat_descend_dots hwf hlf hdirs,
      hbelow]
    refine and_congr_right fun _ => and_congr_right fun _ => and_congr_right fun _ =>
      and_congr_right fun hq => ?_
    rw [hq, hend]
  · have hname : ValidName o := ⟨ho.ne_nil, ho.noSlash, ho.ne_dot, hdots⟩
    have hnames : ValidNames (dirs ++ [o]) := hdirs.append (by simpa [ValidNames] using hname)
    have hend : cur.at? (d ++ (dirs ++ [o])) = fs.at? (d ++ (dirs ++ [o])) :=
      h.below _ (by simp [Path.follow, hdots, ho.ne_dot])
    rw [hd'.stat_descend_iff h.wellFormed h.linkFree (by simp) hnames,
      hd.stat_descend_iff hwf hlf (by simp) hnames]
    refine and_congr_right fun hq => ?_
    rw [hq, hend]

theorem Alike.modified_output (h : Alike d (Path.follow (d ++ dirs) o) fs cur) (hwf : fs.WellFormed)
    (hlf : fs.LinkFree) (hd : Leads fs path d) (hdirs : ValidNames dirs) (ho : Path.Plain o) :
    (cur.modified (path.descend (dirs ++ [o]))).toOption =
      (fs.modified (path.descend (dirs ++ [o]))).toOption := by
  cases hstat : fs.stat (path.descend (dirs ++ [o])) with
  | error e =>
    cases hstat' : cur.stat (path.descend (dirs ++ [o])) with
    | error e' =>
      rw [modified_of_error hstat, modified_of_error hstat']
      rfl
    | ok r => simp [(h.stat_output hwf hlf hd hdirs ho).1 hstat'] at hstat
  | ok r =>
    obtain ⟨q, n⟩ := r
    obtain ⟨rfl, hat⟩ := hd.place_of_output hwf hlf hdirs ho hstat
    have hstat' := (h.stat_output hwf hlf hd hdirs ho).2 hstat
    rw [modified_of_stat hstat, modified_of_stat hstat', timeOf_congr (h.stamp n hat)]

theorem Alike.readText (h : Alike d p fs cur) (hlf : fs.LinkFree) (hp : path.isAbsolute)
    (hvisited : ∀ q ∈ fs.visited [] (lookupNames path), d <+: q → q = d) :
    cur.readText path = fs.readText path :=
  readText_congr hlf h.linkFree hp fun q hq => h.outside q (hvisited q hq)

/-! ### One delivery in two states -/

def held (fs : FileSystem) (q : Place) : Option Node := (fs.at? q).map Node.timeless

theorem held_eq_file {content : Bytes} :
    fs.held q = some (.file content 0) ↔ ∃ t, fs.at? q = some (.file content t) := by
  rw [held, Option.map_eq_some_iff]
  constructor
  · intro h
    obtain ⟨n, hn, hfile⟩ := h
    cases n with
    | file c t =>
      rw [Node.timeless, Node.file.injEq] at hfile
      exact ⟨t, hfile.1 ▸ hn⟩
    | directory | link => simp [Node.timeless] at hfile
  · intro hcase
    obtain ⟨t, ht⟩ := hcase
    exact ⟨_, ht, rfl⟩

theorem Leads.read_descend (h : Leads fs path d) (hwf : fs.WellFormed) (hlf : fs.LinkFree)
    (hdirs : ValidNames dirs) (ho : Path.Plain o) {content : Bytes} :
    (fs.read (path.descend (dirs ++ [o]))).toOption = some content ↔
      o ≠ ['.', '.'] ∧ Admitted path (dirs ++ [o]) ∧
      fs.held (d ++ (dirs ++ [o])) = some (.file content 0) := by
  have hread : (fs.read (path.descend (dirs ++ [o]))).toOption = some content ↔
      ∃ q t, fs.stat (path.descend (dirs ++ [o])) = .ok (q, .file content t) := by
    rw [FileSystem.read]
    split <;> simp_all [Except.toOption]
  rw [hread, held_eq_file]
  by_cases hdots : o = ['.', '.']
  · subst hdots
    simp only [h.stat_descend_dots hwf hlf hdirs, ne_eq, not_true, false_and, iff_false, not_exists]
    intro q t hcase
    obtain ⟨-, -, ⟨u, hu⟩, rfl, hat⟩ := hcase
    obtain ⟨v, hv⟩ := hwf.directory_dropLast hu
    simp [hv] at hat
  · have hname : ValidName o := ⟨ho.ne_nil, ho.noSlash, ho.ne_dot, hdots⟩
    have hnames : ValidNames (dirs ++ [o]) := hdirs.append (by simpa [ValidNames] using hname)
    simp only [h.stat_descend_iff hwf hlf (by simp : dirs ++ [o] ≠ []) hnames]
    constructor
    · intro hex
      obtain ⟨q, t, rfl, hat, hadmitted⟩ := hex
      exact ⟨hdots, hadmitted, t, hat⟩
    · intro hl
      obtain ⟨-, hadmitted, t, hat⟩ := hl
      exact ⟨_, t, rfl, hat, hadmitted⟩

/-- That the same is delivered in two states, at or on the way to `p` below `d`. -/
def Parallel (d p : Place) (fs one cur next : FileSystem) : Prop :=
  ∃ ps q? content, Delivered fs one ps q? content ∧ Delivered cur next ps q? content ∧
    (∀ r ∈ ps, d <+: r ∧ r ≠ d ∧ (r <+: p ∨ p <+: r)) ∧ ∀ r, q? = some r → r = p ∧ d <+: r ∧ r ≠ d

theorem Alike.parallel_refl (h : Alike d p fs cur) (hwf : fs.WellFormed) (hlf : fs.LinkFree) :
    Parallel d p fs fs cur cur :=
  ⟨[], none, fun _ => [], .refl hwf hlf _, .refl h.wellFormed h.linkFree _, by simp, by simp⟩

theorem Parallel.sound (h : Parallel d p fs one cur next) :
    next.WellFormed ∧ next.LinkFree ∧ ∀ r t, cur.at? r = some (.directory t) →
    ∃ u, next.at? r = some (.directory u) := by
  obtain ⟨ps, q?, content, -, hnext, -, -⟩ := h
  exact ⟨hnext.wellFormed, hnext.linkFree, hnext.directory⟩

/-- A delivery elsewhere leaves states alike. -/
theorem Alike.keep {p' : Place} (h : Alike d p' fs cur) (hparallel : Parallel d p fs one cur next)
    (hpp' : ¬p <+: p') (hp'p : ¬p' <+: p) : Alike d p' fs next := by
  obtain ⟨ps, q?, content, -, hnext, hps, hq⟩ := hparallel
  have hbelow {r : Place} (hr : p' <+: r) : r ∉ ps ∧ q? ≠ some r := by
    constructor
    · intro hmem
      cases (hps r hmem).2.2 with
      | inl hrp => exact hp'p (hr.trans hrp)
      | inr hpr => exact (List.prefix_or_prefix_of_prefix hr hpr).elim hp'p hpp'
    · intro heq
      exact hp'p ((hq r heq).1 ▸ hr)
  refine ⟨hnext.wellFormed, hnext.linkFree, fun r t hr => ?_, fun r hr => ?_, fun r hr => ?_,
    fun r hr => ?_, fun n hn => ?_⟩
  · obtain ⟨u, hu⟩ := h.directory r t hr
    exact hnext.directory r u hu
  · rw [hnext.other r ?_ ?_, h.outside r hr]
    · intro hmem
      obtain ⟨hd, hne, -⟩ := hps r hmem
      exact hne (hr hd)
    · intro heq
      obtain ⟨-, hd, hne⟩ := hq r heq
      exact hne (hr hd)
  · rw [hnext.other r (hbelow hr).1 (hbelow hr).2, h.below r hr]
  · have hput : q? ≠ some r := fun heq => hpp' ((hq r heq).1 ▸ hr)
    by_cases hmem : r ∈ ps
    · obtain ⟨t, ht, hcur⟩ := hnext.made r hmem
      cases h.above r hr with
      | inl hsame =>
        cases hcur with
        | inl hcur => exact .inr ⟨hsame ▸ hcur, t, ht⟩
        | inr hcur => exact .inl (ht.trans (hcur.symm.trans hsame))
      | inr hcase =>
        obtain ⟨hnone, -⟩ := hcase
        exact .inr ⟨hnone, t, ht⟩
    · rw [hnext.other r hmem hput]
      exact h.above r hr
  · -- What is new in a directory at the output would be below it.
    have hn' : cur.at? p' = some n := (h.below p' List.prefix_rfl).trans hn
    rcases hnext.stamp p' n hn' with hsame | ⟨-, m, k, hnone, hat⟩
    · exact hsame.trans (h.stamp n hn)
    · obtain ⟨hmem, hput⟩ := hbelow (List.prefix_append p' [m])
      rw [hnext.other _ hmem hput, hnone] at hat
      cases hat

theorem Alike.held_parallel (h : Alike d p fs cur) (hparallel : Parallel d p fs one cur next)
    (q : Place) :
    next.held q = if one.held q = fs.held q then cur.held q else one.held q := by
  obtain ⟨ps, q?, content, hone, hnext, -, hq⟩ := hparallel
  by_cases hput : q? = some q
  · obtain ⟨t, -, ht⟩ := hone.put q hput
    obtain ⟨u, -, hu⟩ := hnext.put q hput
    have hsame : next.held q = one.held q := by rw [held, held, ht, hu]; rfl
    rw [hsame]
    split
    next heq =>
      obtain ⟨rfl, -⟩ := hq q hput
      rw [heq, held, held, h.below q (List.prefix_refl q)]
    · rfl
  by_cases hmem : q ∈ ps
  · obtain ⟨t, ht, hbefore⟩ := hone.made q hmem
    obtain ⟨u, hu, -⟩ := hnext.made q hmem
    have hsame : next.held q = one.held q := by rw [held, held, ht, hu]; rfl
    rw [hsame]
    split
    next heq =>
      cases hbefore with
      | inl hnone => simp [held, ht, hnone] at heq
      | inr hdir =>
        obtain ⟨v, hv⟩ := h.directory q t hdir
        rw [held, held, ht, hv]
        rfl
    · rfl
  · have hsame : one.held q = fs.held q := by rw [held, held, hone.other q hmem hput]
    rw [if_pos hsame, held, held, hnext.other q hmem hput]

theorem Parallel.changed (h : Parallel d p fs one cur next) (hq : one.held q ≠ fs.held q) :
    q = p ∨ (q <+: p ∨ p <+: q) ∧ one.held q = some (.directory 0) := by
  obtain ⟨ps, q?, content, hone, -, hps, hput⟩ := h
  by_cases hsome : q? = some q
  · exact .inl (hput q hsome).1
  by_cases hmem : q ∈ ps
  · obtain ⟨t, ht, -⟩ := hone.made q hmem
    exact .inr ⟨(hps q hmem).2.2, by rw [held, ht]; rfl⟩
  · exact absurd (by rw [held, held, hone.other q hmem hsome]) hq

end FileSystem

namespace Builder

variable {b : Builder} {fs cur next one : FileSystem} {s d p q r : Place} {dirs : List Text}
  {name o : Text} {path rel : Path}

theorem course_congr (h : Alike d (Path.follow (d ++ dirs) o) fs cur) (ho : Path.Plain o)
    (wrap : IoError → BuildError) :
    course cur path d dirs o wrap = course fs path d dirs o wrap := by
  have happroach : cur.approach path d dirs = fs.approach path d dirs := by
    rw [approach, approach]
    split
    · rfl
    · exact descent_congr fun a _ ha => h.all_isDirectory (comparable_follow ha ho)
  have hlanding : cur.landing path d dirs o = fs.landing path d dirs o := by
    rw [landing, landing]
    split
    · rfl
    split
    · rfl
    next hdots =>
      rw [h.below (d ++ (dirs ++ [o])) (by simp [Path.follow, hdots, ho.ne_dot])]
  rw [course, course, happroach, hlanding]

theorem course_on_way {wrap : IoError → BuildError} (hr : r ∈ (course fs path d dirs o wrap).1)
    (ho : Path.Plain o) :
    d <+: r ∧ r ≠ d ∧ (r <+: Path.follow (d ++ dirs) o ∨ Path.follow (d ++ dirs) o <+: r) := by
  obtain ⟨a, ha, hpre, rfl⟩ := mem_course hr
  exact ⟨List.prefix_append _ _, by simpa using ha, comparable_follow hpre ho⟩

theorem course_output {wrap : IoError → BuildError}
    (hr : (course fs path d dirs o wrap).2.toOption = some r) (ho : Path.Plain o) :
    r = Path.follow (d ++ dirs) o ∧ d <+: r ∧ r ≠ d := by
  obtain ⟨rfl, hdots⟩ := eq_of_course hr
  refine ⟨?_, List.prefix_append _ _, by simp⟩
  rw [Path.follow, if_neg ho.ne_dot, if_neg hdots, List.append_assoc]

theorem stat_ensureParent {names : List Text} {content : Bytes} {t : Nat} (hwf : fs.WellFormed)
    (hlf : fs.LinkFree) (hs : fs.Leads b.source s) (hlisted : Listed b fs s names)
    (hat : fs.at? (s ++ names) = some (.file content t)) (hpath : path.isAbsolute) :
    (ensureParent fs path).1.stat (b.source.join (.ofNames names)) =
      .ok (s ++ names, .file content t) := by
  have hgrows := ensureParent_grows hwf hpath
  have hkept := hgrows.at?_of_some hat
  exact (hlisted.of_file ⟨_, _, hkept⟩).stat hgrows.wellFormed (hgrows.linkFree hlf)
    (hs.mono hwf hgrows.directory) hkept

theorem perform_eq_deliver {origin : Place} {content : Bytes} {t : Nat} {action : Action}
    (hne : action ≠ .skip)
    (h : (ensureParent fs (b.destinationFor rel)).1.stat (b.source.join rel) =
      .ok (origin, .file content t)) :
    b.perform fs rel none action = deliver fs (b.destinationFor rel) (action.bytes origin content)
      (action.refused (b.source.join rel) (b.destinationFor rel)) action.outcome := by
  cases action with
  | skip => exact absurd rfl hne
  | copy | copyVerbatim => exact copyFile_eq_deliver h
  | write page => exact writePage_eq_deliver b fs rel page

theorem perform_parallel (h : Alike d (Path.follow (d ++ dirs) (b.outputName dirs name)) fs cur)
    (hwf : fs.WellFormed) (hlf : fs.LinkFree) (hs : fs.Leads b.source s)
    (hd : fs.Leads b.destination d) (hlisted : Listed b fs s (dirs ++ [name]))
    (hclear : ¬d <+: s ++ (dirs ++ [name])) (action : Action) :
    (b.perform cur (.ofNames (dirs ++ [name])) none action).2 =
      (b.perform fs (.ofNames (dirs ++ [name])) none action).2 ∧
      Parallel d (Path.follow (d ++ dirs) (b.outputName dirs name)) fs
        (b.perform fs (.ofNames (dirs ++ [name])) none action).1 cur
        (b.perform cur (.ofNames (dirs ++ [name])) none action).1 := by
  by_cases hne : action = .skip
  · subst hne
    exact ⟨rfl, h.parallel_refl hwf hlf⟩
  have hdirs := hlisted.valid.of_append.1
  have hname := hlisted.valid name (by simp)
  have ho : Path.Plain (b.outputName dirs name) := plain_outputName hname
  have hout := destinationFor_ofNames hd.absolute hdirs hname
  have hd' := hd.mono hwf h.directory
  have hs' := hs.mono hwf h.directory
  obtain ⟨content, t, hat⟩ := hlisted.file
  have hat' : cur.at? (s ++ (dirs ++ [name])) = some (.file content t) :=
    (h.outside _ fun hpre => absurd hpre hclear).trans hat
  have habs : (b.destinationFor (.ofNames (dirs ++ [name]))).isAbsolute := by
    rw [hout]
    exact Path.isAbsolute_descend hd.absolute _
  have hstat := stat_ensureParent hwf hlf hs hlisted hat habs
  have hstat' := stat_ensureParent h.wellFormed h.linkFree hs' (hlisted.of_file ⟨_, _, hat'⟩) hat'
    habs
  rw [perform_eq_deliver hne hstat, perform_eq_deliver hne hstat', hout]
  have hspec {fs' : FileSystem} (hwf' : fs'.WellFormed) (hlf' : fs'.LinkFree)
      (hd' : fs'.Leads b.destination d) :=
    deliver_spec hwf' hlf' hd' hdirs ho (action.bytes (s ++ (dirs ++ [name])) content)
      (action.refused (b.source.join (.ofNames (dirs ++ [name])))
        (b.destination.descend (dirs ++ [b.outputName dirs name]))) action.outcome
  obtain ⟨hresult, hone⟩ := hspec hwf hlf hd
  obtain ⟨hresult', hnext⟩ := hspec h.wellFormed h.linkFree hd'
  rw [course_congr h ho] at hresult' hnext
  exact ⟨hresult'.trans hresult.symm, _, _, _, hone, hnext,
    fun r hr => course_on_way hr ho, fun r hr => course_output hr ho⟩

theorem buildFile_parallel (h : Alike d (Path.follow (d ++ dirs) (b.outputName dirs name)) fs cur)
    (hwf : fs.WellFormed) (hlf : fs.LinkFree) (hs : fs.Leads b.source s)
    (hd : fs.Leads b.destination d) (hlisted : Listed b fs s (dirs ++ [name]))
    (hclear : ¬d <+: s ++ (dirs ++ [name])) (hincludes : b.pages.includes.isAbsolute)
    (hlayouts : b.pages.layouts.isAbsolute)
    (hreads : ∀ p ∈ b.reads fs (.ofNames (dirs ++ [name])), ∀ q ∈ fs.visited [] (lookupNames p),
      d <+: q → q = d) :
    (b.buildFile cur (.ofNames (dirs ++ [name]))).result =
      (b.buildFile fs (.ofNames (dirs ++ [name]))).result ∧
      Parallel d (Path.follow (d ++ dirs) (b.outputName dirs name)) fs
      (b.buildFile fs (.ofNames (dirs ++ [name]))).files
        cur (b.buildFile cur (.ofNames (dirs ++ [name]))).files := by
  have hdirs := hlisted.valid.of_append.1
  have hname := hlisted.valid name (by simp)
  have hout := destinationFor_ofNames hd.absolute hdirs hname
  obtain ⟨content, t, hat⟩ := hlisted.file
  have hat' : cur.at? (s ++ (dirs ++ [name])) = some (.file content t) :=
    (h.outside _ fun hpre => absurd hpre hclear).trans hat
  have hstat : cur.stat (b.source.join (.ofNames (dirs ++ [name]))) =
      fs.stat (b.source.join (.ofNames (dirs ++ [name]))) :=
    ((hlisted.of_file ⟨_, _, hat'⟩).stat h.wellFormed h.linkFree (hs.mono hwf h.directory)
      hat').trans
      (hlisted.stat hwf hlf hs hat).symm
  have hdecide : b.decide cur (.ofNames (dirs ++ [name])) =
      b.decide fs (.ofNames (dirs ++ [name])) := by
    have hmodified : cur.modified (b.source.join (.ofNames (dirs ++ [name]))) =
        fs.modified (b.source.join (.ofNames (dirs ++ [name]))) := by
      rw [modified, modified, hstat, hlisted.stat hwf hlf hs hat]
      rfl
    rw [Builder.decide, Builder.decide, isUpToDate, isUpToDate, hmodified, hout,
      h.modified_output hwf hlf hd hdirs (plain_outputName hname)]
  -- What is planned depends on the document, on the time of its output and on what is read for it,
  -- and none of these differs.
  have hplan : b.plan cur (.ofNames (dirs ++ [name])) = b.plan fs (.ofNames (dirs ++ [name])) := by
    refine plan_congr hwf h.wellFormed hlayouts hdecide ?_ fun p hp => ?_
    · rw [FileSystem.read, FileSystem.read, hstat]
    · refine h.readText hlf ?_ (hreads p hp)
      obtain ⟨m, rfl | rfl⟩ := mem_reads hp
      · exact Path.isAbsolute_joinText hincludes m
      · exact Path.isAbsolute_joinText hlayouts m
  rw [buildFile, buildFile, buildFileFaulty, buildFileFaulty, hplan]
  cases b.plan fs (.ofNames (dirs ++ [name])) with
  | error e => exact ⟨rfl, h.parallel_refl hwf hlf⟩
  | ok action => exact perform_parallel h hwf hlf hs hd hlisted hclear action

end Builder
end StaticSite
