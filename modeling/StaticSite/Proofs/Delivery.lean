import StaticSite.Proofs.Descent
import StaticSite.Proofs.Writes

/-! How an output is delivered: the directories above it are made, and then its content is put where
its path leads. The course of this can be told from the state before it, and nothing off the course
is changed. -/
namespace StaticSite

namespace Path

theorem length_le_width (names : List Text) : names.length ≤ width names := by
  induction names with
  | nil => simp
  | cons n ns ih =>
    rw [width_cons, List.length_cons]
    omega

theorem length_le_trimmed_descend {p : Path} (hp : p.isAbsolute) {names : List Text}
    (h : ∀ n ∈ names, Plain n) :
    names.length ≤ (p.descend names).trimmed.text.length := by
  cases List.eq_nil_or_concat' names with
  | inl heq =>
    subst heq
    simp
  | inr hcase =>
    obtain ⟨ns, n, rfl⟩ := hcase
    have hjoin := length_join (show ns ++ [n] ≠ [] by simp)
    have hwidth := length_le_width (ns ++ [n])
    obtain ⟨a, hstem, -⟩ := pieces_stemText_append p []
    rw [descend_concat, trimmed_joinText (isAbsolute_descend hp ns) (h n (by simp)),
      ← descend_concat, text_descend hp (by simp) h, hstem]
    simp only [List.length_append, List.length_singleton] at hwidth ⊢
    omega

end Path

namespace FileSystem

variable {fs : FileSystem} {d q : Place} {dirs : List Text} {o : Text} {path : Path}

theorem makeDirectories_of_refused (htrim : trimSlashes path = path) (hp : path.isAbsolute)
    {e : IoError} (h : textRefusal? path = some e) (fuel : Nat) :
    fs.makeDirectories path (fuel + 1) = (fs, some e) := by
  have hfind (followLast : Bool) : fs.find followLast path = .error e := by rw [find_eq, h]
  have hmake : fs.makeDirectory path = .error e := by rw [makeDirectory_of_trimmed fs htrim, hfind]
  have hdir : fs.isDirectory path = false := by
    rw [isDirectory, node?, stat, hfind]
    rfl
  have hattempt : fs.attempt path = (fs, some e) := by
    rw [attempt, hmake]
    simp [hdir]
  rw [makeDirectories_succ hp, hmake]
  cases e with
  | notFound =>
    obtain ⟨t, ht⟩ := Path.isAbsolute_iff.1 hp
    rw [textRefusal?] at h
    split at h
    · simp at h
    · simp only [ht, reduceCtorEq, if_false] at h
      split at h <;> simp at h
  | _ => exact hattempt

/-- The directories passed on the way to an output, and what is in the way. -/
def approach (fs : FileSystem) (path : Path) (d : Place) (dirs : List Text) :
    List Place × Option IoError :=
  match textRefusal? (path.descend dirs).trimmed with
  | some e => ([], some e)
  | none => fs.descent d dirs

theorem Leads.makeAll_descend (hwf : fs.WellFormed) (hlf : fs.LinkFree) (h : Leads fs path d)
    (hdirs : ValidNames dirs) :
    (fs.makeAll (path.descend dirs).trimmed).2 = (fs.approach path d dirs).2 ∧
      Planted fs (fs.makeAll (path.descend dirs).trimmed).1 (fs.approach path d dirs).1 := by
  rw [makeAll, approach]
  have habs := Path.isAbsolute_descend h.absolute dirs
  cases hr : textRefusal? (path.descend dirs).trimmed with
  | some e =>
    rw [makeDirectories_of_refused (trimSlashes_trimmed habs) (Path.isAbsolute_trimmed habs) hr]
    exact ⟨rfl, .refl hwf (by simp)⟩
  | none =>
    have hlength := Path.length_le_trimmed_descend h.absolute hdirs.plain
    exact h.makeDirectories_descend hwf hlf hdirs (Nat.lt_succ_of_le hlength) hr

theorem mem_approach (h : q ∈ (fs.approach path d dirs).1) :
    (∃ a, a ≠ [] ∧ a <+: dirs ∧ q = d ++ a) ∧ (fs.at? q).all Node.isDirectory := by
  rw [approach] at h
  split at h
  · simp at h
  · exact mem_descent h

theorem output_not_mem_approach (fs : FileSystem) (path : Path) (d : Place) (dirs : List Text)
    (o : Text) :
    d ++ (dirs ++ [o]) ∉ (fs.approach path d dirs).1 := by
  intro hmem
  obtain ⟨⟨a, -, hpre, heq⟩, -⟩ := mem_approach hmem
  rw [List.append_cancel_left_eq] at heq
  have := hpre.length_le
  rw [← heq, List.length_append, List.length_singleton] at this
  omega

theorem approach_passed (h : (fs.approach path d dirs).2 = none) :
    (∀ m ∈ dirs, Fits m) ∧ (dirs ≠ [] → d ++ dirs ∈ (fs.approach path d dirs).1) := by
  rw [approach] at h ⊢
  split at h
  · simp at h
  · exact ⟨fits_of_descent h, last_mem_descent h⟩

/-- Where a write goes in a directory that is there. Two dots at its end lead to a directory. -/
def landing (fs : FileSystem) (path : Path) (d : Place) (dirs : List Text) (o : Text) :
    Except IoError Place :=
  match textRefusal? (path.descend (dirs ++ [o])) with
  | some e => .error e
  | none =>
    if o = ['.', '.'] then .error .isDirectory
    else if Fits o then
      if (fs.at? (d ++ (dirs ++ [o]))).any Node.isDirectory then .error .isDirectory
        else .ok (d ++ (dirs ++ [o]))
    else .error .nameTooLong

theorem of_landing (h : fs.landing path d dirs o = .ok q) :
    textRefusal? (path.descend (dirs ++ [o])) = none ∧ o ≠ ['.', '.'] ∧ Fits o ∧
      (∀ t, fs.at? q ≠ some (.directory t)) ∧ q = d ++ (dirs ++ [o]) := by
  rw [landing] at h
  split at h
  · simp at h
  next hnone =>
    split at h
    · simp at h
    next hdots =>
      split at h
      case isFalse => simp at h
      next hfits =>
        split at h
        · simp at h
        next hopen =>
          have hq := (Except.ok.inj h).symm
          refine ⟨hnone, hdots, hfits, fun t ht => hopen ?_, hq⟩
          rw [← hq, ht]
          rfl

theorem eq_of_landing (h : fs.landing path d dirs o = .ok q) :
    q = d ++ (dirs ++ [o]) ∧ o ≠ ['.', '.'] := by
  obtain ⟨-, hdots, -, -, hq⟩ := of_landing h
  exact ⟨hq, hdots⟩

theorem Leads.target_eq_landing (h : Leads fs path d) (hwf : fs.WellFormed) (hlf : fs.LinkFree)
    (hdirs : ValidNames dirs) (ho : Path.Plain o) (hfits : ∀ m ∈ dirs, Fits m) {t : Nat}
    (hat : fs.at? (d ++ dirs) = some (.directory t)) :
    fs.target (path.descend (dirs ++ [o])) = fs.landing path d dirs o := by
  obtain ⟨u, hu⟩ := h.at? hwf
  have hplain : ∀ n ∈ dirs ++ [o], Path.Plain n := fun n hn =>
    (List.mem_append.1 hn).elim (hdirs.plain n) (ho.singleton n)
  have hto := (route_eq_found hwf hlf hu hdirs).2 ⟨rfl, hat, hfits⟩
  rw [target, landing, h.find_descend hlf true (by simp) hplain]
  cases textRefusal? (path.descend (dirs ++ [o])) with
  | some e => rfl
  | none =>
    simp only [route_append hto]
    by_cases hdots : o = ['.', '.']
    · obtain ⟨v, hv⟩ := hwf.directory_dropLast hat
      have hup : fs.route (d ++ dirs) [['.', '.']] =
          .ok (.found (d ++ dirs).dropLast (.directory v)) := by
        rw [route_dots, FileSystem.route_nil, hv]
        rfl
      rw [hdots, hup]
      rfl
    · have hname : ValidName o := ⟨ho.ne_nil, ho.noSlash, ho.ne_dot, hdots⟩
      rw [route_name hname, if_neg hdots, ← List.append_assoc]
      by_cases hfit : Fits o
      case neg => rw [if_neg hfit, if_neg hfit]
      rw [if_pos hfit, if_pos hfit]
      cases hn : fs.at? (d ++ dirs ++ [o]) with
      | none => rfl
      | some n =>
        cases n with
        | file | directory => rfl
        | link => exact absurd (hlf.isLink_eq_false hn) (by simp [Node.isLink])

theorem Leads.target_of_planted {mid : FileSystem} (h : Leads fs path d) (hwf : fs.WellFormed)
    (hlf : fs.LinkFree) (hplanted : Planted fs mid (fs.approach path d dirs).1)
    (hdirs : ValidNames dirs) (ho : Path.Plain o) (hpass : (fs.approach path d dirs).2 = none) :
    mid.target (path.descend (dirs ++ [o])) = fs.landing path d dirs o := by
  obtain ⟨hfits, hlast⟩ := approach_passed hpass
  have hmid := h.mono hwf hplanted.grows.directory
  obtain ⟨t, ht⟩ : ∃ t, mid.at? (d ++ dirs) = some (.directory t) := by
    by_cases hne : dirs = []
    · subst hne
      simpa using hmid.at? hplanted.grows.wellFormed
    · exact hplanted.made _ (hlast hne)
  rw [hmid.target_eq_landing hplanted.grows.wellFormed (hplanted.grows.linkFree hlf) hdirs ho hfits
    ht]
  rw [landing, landing, hplanted.other _ (output_not_mem_approach fs path d dirs o)]

/-! ### What is delivered -/

/-- That directories are at the places passed, the content is where it landed, and nothing else
changed. -/
structure Delivered (fs fs' : FileSystem) (ps : List Place) (q? : Option Place)
    (content : Place → Bytes) : Prop where
  wellFormed : fs'.WellFormed
  linkFree : fs'.LinkFree
  clock : fs.clock ≤ fs'.clock
  directory : ∀ r t, fs.at? r = some (.directory t) → ∃ u, fs'.at? r = some (.directory u)
  other : ∀ r, r ∉ ps → q? ≠ some r → fs'.at? r = fs.at? r
  made : ∀ r ∈ ps, ∃ t, fs'.at? r = some (.directory t) ∧
    (fs.at? r = none ∨ fs.at? r = some (.directory t))
  put : ∀ r, q? = some r → ∃ t, fs.clock ≤ t ∧ fs'.at? r = some (.file (content r) t)
  stamp : ∀ r n, fs.at? r = some n → Restamped fs fs' r

theorem Delivered.refl (hwf : fs.WellFormed) (hlf : fs.LinkFree) (content : Place → Bytes) :
    Delivered fs fs [] none content :=
  ⟨hwf, hlf, Nat.le_refl _, fun _ t ht => ⟨t, ht⟩, fun _ _ _ => rfl, by simp, by simp,
    fun r _ _ => .refl fs r⟩

theorem Planted.delivered {ps : List Place} (h : Planted fs fs' ps) (hlf : fs.LinkFree)
    (content : Place → Bytes) :
    Delivered fs fs' ps none content := by
  refine ⟨h.grows.wellFormed, h.grows.linkFree hlf, h.grows.clock, h.grows.directory,
    fun r hr _ => h.other r hr, fun r hr => ?_, by simp, h.grows.stamp⟩
  obtain ⟨t, ht⟩ := h.made r hr
  cases h.grows.at? r with
  | inl heq => exact ⟨t, ht, .inr (heq.symm.trans ht)⟩
  | inr hcase =>
    obtain ⟨hnone, -⟩ := hcase
    exact ⟨t, ht, .inl hnone⟩

theorem Planted.delivered_put {ps : List Place} {mid : FileSystem} (h : Planted fs mid ps)
    (hlf : fs.LinkFree) (hp : path.isAbsolute) (ht : mid.target path = .ok q) (hq : q ∉ ps)
    (content : Place → Bytes) :
    Delivered fs (mid.put q (.file (content q) mid.clock)).tick ps (some q) content := by
  have hplanted := h.delivered hlf content
  have hne : q ≠ [] := by
    obtain ⟨⟨r, m, u, rfl, -⟩, -⟩ := hplanted.wellFormed.of_target hp ht
    simp
  have hother {r : Place} (hr : r ≠ q) :
      (mid.put q (.file (content q) mid.clock)).tick.at? r = mid.at? r := by
    rw [at?_tick, at?_put_of_ne mid _ hr]
  refine ⟨(hplanted.wellFormed.put_target hp ht _ _).tick, (hplanted.linkFree.put rfl q).tick,
    Nat.le_succ_of_le hplanted.clock, fun r t hr => ?_, fun r hr hne => ?_, fun r hr => ?_,
    fun r hr => ?_,
    fun r n hr => h.grows.restamped_put hr q _⟩
  · obtain ⟨u, hu⟩ := hplanted.directory r t hr
    have hrq : r ≠ q := by
      intro heq
      subst heq
      exact hplanted.wellFormed.at?_of_target hp ht u hu
    exact ⟨u, by rw [hother hrq, hu]⟩
  · rw [hother fun he => hne (by rw [he])]
    exact h.other r hr
  · rw [hother fun he => hq (he ▸ hr)]
    exact hplanted.made r hr
  · obtain rfl := Option.some.inj hr
    exact ⟨_, hplanted.clock, by rw [at?_tick, at?_put_self mid hne]⟩

end FileSystem

namespace Builder

open FileSystem

variable {b : Builder} {fs fs' : FileSystem} {d : Place} {dirs : List Text} {o : Text}
  {path rel : Path}

/-- The course of a delivery: the places passed, and where the content lands or why it does not. -/
def course (fs : FileSystem) (path : Path) (d : Place) (dirs : List Text) (o : Text)
    (wrap : IoError → BuildError) :
    List Place × Except BuildError Place :=
  match fs.approach path d dirs with
  | (ps, some e) => (ps, .error (.createDirectory (path.descend dirs).trimmed e))
  | (ps, none) => (ps, (fs.landing path d dirs o).mapError wrap)

variable {wrap : IoError → BuildError} {r : Place}

theorem course_fst : (course fs path d dirs o wrap).1 = (fs.approach path d dirs).1 := by
  rw [course]
  split <;> simp_all

theorem course_eq_ok :
    (course fs path d dirs o wrap).2 = .ok r ↔ (fs.approach path d dirs).2 = none ∧
    fs.landing path d dirs o = .ok r := by
  rw [course]
  split
  next ps e hway => simp [hway]
  next ps hway =>
    cases hl : fs.landing path d dirs o with
    | error e => simp [hway, Except.mapError]
    | ok q => simp [hway, Except.mapError]

theorem mem_course (h : r ∈ (course fs path d dirs o wrap).1) :
    ∃ a, a ≠ [] ∧ a <+: dirs ∧ r = d ++ a := by
  rw [course_fst] at h
  exact (mem_approach h).1

theorem landing_of_course (h : (course fs path d dirs o wrap).2.toOption = some r) :
    fs.landing path d dirs o = .ok r := by
  cases hcourse : (course fs path d dirs o wrap).2 with
  | error e => simp [hcourse, Except.toOption] at h
  | ok q =>
    have hq : q = r := by simpa [hcourse, Except.toOption] using h
    exact hq ▸ (course_eq_ok.1 hcourse).2

theorem eq_of_course (h : (course fs path d dirs o wrap).2.toOption = some r) :
    r = d ++ (dirs ++ [o]) ∧ o ≠ ['.', '.'] :=
  eq_of_landing (landing_of_course h)

def deliver (fs : FileSystem) (output : Path) (content : Place → Bytes)
    (wrap : IoError → BuildError) (done : Outcome) :
    FileSystem × Except BuildError Outcome :=
  match ensureParent fs output with
  | (fs, some e) => (fs, .error e)
  | (fs, none) =>
    match fs.deposit output content with
    | (fs, some e) => (fs, .error (wrap e))
    | (fs, none) => (fs, .ok done)

theorem writePage_eq_deliver (b : Builder) (fs : FileSystem) (rel : Path) (page : Rendered) :
    b.writePage fs rel page none =
      deliver fs (b.destinationFor rel) (fun _ => Text.Utf8.encode page.text)
      (.write (b.destinationFor rel))
        .transformed := by
  rw [writePage, deliver]
  cases ensureParent fs (b.destinationFor rel) with
  | mk mid e =>
    cases e with
    | some e => rfl
    | none =>
      have hwrite := write_eq_deposit mid (b.destinationFor rel) (Text.Utf8.encode page.text)
      cases hput : mid.deposit (b.destinationFor rel) fun _ => Text.Utf8.encode page.text with
      | mk after e => cases e <;> simp [hwrite, hput]

theorem copyFile_eq_deliver {origin : Place} {content : Bytes} {t : Nat}
    (h : (ensureParent fs (b.destinationFor rel)).1.stat (b.source.join rel) =
      .ok (origin, .file content t)) :
    b.copyFile fs rel none = deliver fs (b.destinationFor rel)
    (fun q => if q = origin then [] else content)
      (.copy (b.source.join rel) (b.destinationFor rel)) .copied := by
  rw [copyFile, deliver]
  cases he : ensureParent fs (b.destinationFor rel) with
  | mk mid e =>
    cases e with
    | some e => rfl
    | none =>
      rw [he] at h
      have hcopy := copy_eq_deposit h (b.destinationFor rel)
      cases hput : mid.deposit (b.destinationFor rel) fun q =>
        if q = origin then [] else content with
      | mk after e => cases e <;> simp [hcopy, hput]

theorem deliver_spec (hwf : fs.WellFormed) (hlf : fs.LinkFree) (h : fs.Leads path d)
    (hdirs : ValidNames dirs) (ho : Path.Plain o) (content : Place → Bytes)
    (wrap : IoError → BuildError) (done : Outcome) :
    (deliver fs (path.descend (dirs ++ [o])) content wrap done).2 =
        (course fs path d dirs o wrap).2.map (fun _ => done) ∧
      Delivered fs (deliver fs (path.descend (dirs ++ [o])) content wrap done).1
      (course fs path d dirs o wrap).1
        (course fs path d dirs o wrap).2.toOption content := by
  have habs := Path.isAbsolute_descend h.absolute (dirs ++ [o])
  obtain ⟨herror, hplanted⟩ := h.makeAll_descend hwf hlf hdirs
  have hensure : ensureParent fs (path.descend (dirs ++ [o])) =
      ((fs.makeAll (path.descend dirs).trimmed).1,
        (fs.approach path d dirs).2.map (.createDirectory (path.descend dirs).trimmed)) := by
    rw [ensureParent, Path.parent?_descend_concat h.absolute dirs ho, ← herror]
    cases hmade : fs.makeAll (path.descend dirs).trimmed with
    | mk mid e => cases e <;> simp [hmade]
  have htarget := h.target_of_planted hwf hlf hplanted hdirs ho
  have hlast := output_not_mem_approach fs path d dirs o
  cases hway : fs.approach path d dirs with
  | mk ps e =>
    rw [hway] at hplanted hensure htarget hlast
    cases e with
    | some e =>
      rw [deliver, hensure, course, hway]
      exact ⟨rfl, hplanted.delivered hlf content⟩
    | none =>
      rw [deliver, hensure, course, hway]
      simp only [Option.map_none, deposit, htarget rfl]
      cases hl : fs.landing path d dirs o with
      | error e => exact ⟨rfl, hplanted.delivered hlf content⟩
      | ok q =>
        obtain ⟨rfl, -⟩ := eq_of_landing hl
        exact ⟨rfl, hplanted.delivered_put hlf habs ((htarget rfl).trans hl) hlast content⟩

end Builder
end StaticSite
