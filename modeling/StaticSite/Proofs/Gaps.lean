import Mathlib
import StaticSite.Proofs.HandlerInvariant

/-! Files and directories that are made while the handler is at work. All below a new directory is
listed before what is listed is subscribed to, one directory after the other; what is made in one of
these after it has been listed and before it is subscribed to is neither listed nor reported. All
else is queued, and what is below a directory that was missed so is not. -/
namespace StaticSite

open FileSystem Builder

/-- That a file or a directory can be made under a name in a directory. -/
structure Fresh (fs : FileSystem) (dir : Place) (name : Text) (n : Node) : Prop where
  directory : ∃ t, fs.at? dir = some (.directory t)
  free : fs.at? (dir ++ [name]) = none
  valid : ValidName name
  unlinked : n.isLink = false

namespace Fresh

variable {fs : FileSystem} {dir p root : Place} {name : Text} {n m : Node} {b : Builder}

theorem at?_of_ne (hne : p ≠ dir ++ [name]) : (fs.put (dir ++ [name]) n).at? p = fs.at? p :=
  at?_put_of_ne fs n hne

theorem at?_self : (fs.put (dir ++ [name]) n).at? (dir ++ [name]) = some n :=
  at?_put_self fs (by simp) n

theorem ne_of_some (hf : Fresh fs dir name n) (hm : fs.at? p = some m) : p ≠ dir ++ [name] := by
  rintro rfl
  rw [hf.free] at hm
  cases hm

theorem grows (hf : Fresh fs dir name n) (hm : fs.at? p = some m) :
    (fs.put (dir ++ [name]) n).at? p = some m := by
  rw [at?_put_of_ne fs n (hf.ne_of_some hm), hm]

theorem not_above (hf : Fresh fs dir name n) (hwf : fs.WellFormed) (hm : fs.at? p = some m) :
    ¬dir ++ [name] <+: p :=
  hwf.not_prefix_of_none hf.free hm

theorem validNames (hf : Fresh fs dir name n) (hwf : fs.WellFormed) :
    ValidNames (dir ++ [name]) := by
  obtain ⟨t, ht⟩ := hf.directory
  exact (hwf.validNames ht).append (by simpa [ValidNames] using hf.valid)

theorem exists_dirs {names : List Text} (hf : Fresh fs dir name n) (hst : Standing b root fs)
    (hsame : root ++ names = dir ++ [name]) :
    ∃ dirs, dir = root ++ dirs ∧ names = dirs ++ [name] := by
  cases List.eq_nil_or_concat' names with
  | inl hnil =>
    rw [hnil, List.append_nil] at hsame
    obtain ⟨t, ht⟩ := hst.directory
    exact absurd hsame (hf.ne_of_some ht)
  | inr hconcat =>
    obtain ⟨dirs, last, rfl⟩ := hconcat
    rw [← List.append_assoc] at hsame
    obtain ⟨rfl, hlast⟩ := List.append_inj' hsame rfl
    exact ⟨dirs, rfl, by rw [hlast]⟩

theorem standing (hf : Fresh fs dir name n) (hst : Standing b root fs) :
    Standing b root (fs.put (dir ++ [name]) n) := by
  obtain ⟨t, ht⟩ := hf.directory
  refine ⟨hst.wellFormed.put ht hf.valid fun _ m => ?_, hst.linkFree.put hf.unlinked _,
    hst.leads.mono hst.wellFormed fun r u hr => ⟨u, hf.grows hr⟩, hst.named⟩
  cases hat : fs.at? (dir ++ [name] ++ [m]) with
  | none => rfl
  | some k => exact absurd (List.prefix_append _ _) (hf.not_above hst.wellFormed hat)

end Fresh

namespace HandlerState

/-- That what is made in a directory now is missed: the directory has been listed and is still to be
subscribed to, and no path waits that will have it listed again. -/
structure Missed (h : ChangeHandler) (a : HandlerState) (dir : Place) : Prop where
  listed : ∃ entries, a.stage = .listed entries ∧
    ∃ e ∈ entries, e.kind = .directory ∧
    (h.builder.source.join e.path).components = (Path.ofPlace dir).components
  unsubscribed : a.watch.contains (.ofPlace dir) = false
  unannounced : ∀ p ∈ a.waiting, (Path.ofPlace dir).startsWith p = false

/-- The states that the handler comes to while files and directories are made, with those of them
that are missed. -/
inductive Runs (h : ChangeHandler) (first : HandlerState) : HandlerState → List Place → Prop
  | start : Runs h first first []
  | step {a : HandlerState} {gaps : List Place} (before : Runs h first a gaps) :
      Runs h first (a.step h) gaps
  | make {a : HandlerState} {gaps : List Place} (before : Runs h first a gaps) {dir : Place}
      {name : Text} {n : Node}
      (fresh : Fresh a.files dir name n) (noticed : ¬Missed h a dir) :
      Runs h first (a.make dir name n) gaps
  | miss {a : HandlerState} {gaps : List Place} (before : Runs h first a gaps) {dir : Place}
      {name : Text} {n : Node}
      (fresh : Fresh a.files dir name n) (missed : Missed h a dir) :
      Runs h first (a.make dir name n) (gaps ++ [dir ++ [name]])

variable {h : ChangeHandler} {root dir p q : Place} {first a b last : HandlerState}
  {gaps gaps' more : List Place} {held : Place → Prop} {queued : List Path} {fs fs' : FileSystem}
    {ws : WatchState} {stage : Stage}
  {names dirs : List Text} {name : Text} {n m : Node} {kind : EntryKind}

/-! ### What is made -/

theorem met_mono (hgrow : ∀ p n, fs.at? p = some n → fs'.at? p = some n)
    (hmet : Met h.builder fs root names) :
    Met h.builder fs' root names :=
  ⟨hmet.toOpen, hmet.admitted, hmet.there.imp fun n hn => hgrow _ n hn⟩

theorem Present.mono (hp : Present h root fs names)
    (hgrow : ∀ p n, fs.at? p = some n → fs'.at? p = some n) :
    Present h root fs' names :=
  ⟨met_mono hgrow hp.toMet, hp.below, hp.directory.imp fun _ ht => hgrow _ _ ht⟩

theorem Listed.mono (hl : Listed h root fs kind names) (hst : Standing h.builder root fs)
    (hst' : Standing h.builder root fs') (hgrow : ∀ p n, fs.at? p = some n → fs'.at? p = some n) :
    Listed h root fs' kind names := by
  refine ⟨met_mono hgrow hl.toMet, hl.below, ?_⟩
  cases kind with
  | directory =>
    obtain ⟨hadmitted, t, ht⟩ := (hst.kindAt?_directory_iff hl.below hl.valid).1 hl.kindAt
    exact (hst'.kindAt?_directory_iff hl.below hl.valid).2 ⟨hadmitted, t, hgrow _ _ ht⟩
  | file =>
    obtain ⟨hadmitted, content, t, ht⟩ := (hst.kindAt?_file_iff hl.below hl.valid).1 hl.kindAt
    exact (hst'.kindAt?_file_iff hl.below hl.valid).2 ⟨hadmitted, content, t, hgrow _ _ ht⟩

theorem knows_mono (hk : Knows h root fs held stage) (hst : Standing h.builder root fs)
    (hst' : Standing h.builder root fs') (hgrow : ∀ p n, fs.at? p = some n → fs'.at? p = some n) :
    Knows h root fs' held stage := by
  cases stage with
  | idle => trivial
  | found path rel => exact hk.imp fun names hn => ⟨hn.1, hn.2.1, hn.2.2.mono hgrow⟩
  | opened rel => exact hk.imp fun names hn => ⟨hn.1, hn.2.1, hn.2.2.mono hgrow⟩
  | listed entries =>
    exact fun e he => (hk e he).imp fun names hn => ⟨hn.1, hn.2.mono hst hst' hgrow⟩

theorem atHand_concat (hk : Knows h root fs held stage)
    (hfree : fs.at? (root ++ (dirs ++ [name])) = none) :
    AtHand stage (dirs ++ [name]) ↔ AtHand stage dirs := by
  have hcut {above : List Text} (hp : Present h root fs above) : above <+: dirs ++ [name] ↔
      above <+: dirs := by
    rw [List.prefix_concat_iff, or_iff_right]
    rintro rfl
    obtain ⟨n, hn⟩ := hp.there
    rw [hfree] at hn
    cases hn
  cases stage with
  | idle => simp
  | found path rel =>
    obtain ⟨above, -, rfl, hp⟩ := hk
    rw [atHand_found hp.valid hp.below, atHand_found hp.valid hp.below, hcut hp]
  | opened rel =>
    obtain ⟨above, rfl, -, hp⟩ := hk
    rw [atHand_opened hp.valid hp.below, atHand_opened hp.valid hp.below, hcut hp]
  | listed entries => simp

theorem not_left (hk : Knows h root fs held stage) (hvalid : ValidNames names)
    (hfree : fs.at? (root ++ names) = none) :
    ¬Left stage names := by
  cases stage with
  | idle | found | opened => exact id
  | listed entries =>
    intro hleft
    obtain ⟨kind, hin⟩ := hleft
    obtain ⟨above, hpath, hl⟩ := hk _ hin
    obtain rfl := (ofNames_eq_iff hvalid hl.valid hl.below).1 hpath
    obtain ⟨n, hn⟩ := hl.there
    rw [hfree] at hn
    cases hn

theorem left_iff (hr : Rooted h.builder root) (hst : Standing h.builder root fs)
    (hk : Knows h root fs held stage) (hmet : Met h.builder fs root dirs)
    (hdir : ∃ t, fs.at? (root ++ dirs) = some (.directory t)) :
    Left stage dirs ↔ ∃ entries, stage = .listed entries ∧ ∃ e ∈ entries, e.kind = .directory ∧
      (h.builder.source.join e.path).components = (Path.ofPlace (root ++ dirs)).components := by
  constructor
  · intro hleft
    cases stage with
    | idle | found | opened => exact absurd hleft id
    | listed entries =>
      obtain ⟨kind, hin⟩ := hleft
      obtain ⟨above, hpath, hl⟩ := hk _ hin
      obtain rfl := (ofNames_eq_iff hmet.valid hl.valid hl.below).1 hpath
      refine ⟨entries, rfl, _, hin, ?_, by rw [hr.join hl.below hl.valid]⟩
      cases kind with
      | directory => rfl
      | file =>
        obtain ⟨t, ht⟩ := hdir
        obtain ⟨-, content, u, hu⟩ := (hst.kindAt?_file_iff hl.below hl.valid).1 hl.kindAt
        rw [ht] at hu
        cases hu
  · intro hlisted
    obtain ⟨entries, rfl, ⟨path, kind⟩, hin, rfl, hsame⟩ := hlisted
    obtain ⟨above, hpath, hl⟩ := hk _ hin
    obtain rfl : path = .ofNames above := hpath
    rw [hr.join hl.below hl.valid] at hsame
    have heq := Path.components_ofPlace_inj (hr.valid.append hl.valid) (hr.valid.append hmet.valid)
      hsame
    obtain rfl := List.append_cancel_left heq
    exact ⟨_, hin⟩

theorem missed_iff (hr : Rooted h.builder root) (hm : Invariant h root first gaps held queued a)
    (hmet : Met h.builder a.files root dirs)
    (hdir : ∃ t, a.files.at? (root ++ dirs) = some (.directory t)) :
    Missed h a (root ++ dirs) ↔ Left a.stage dirs ∧ ¬held (root ++ dirs) ∧
    ¬Waits root a.waiting dirs := by
  have hplace : ValidNames (root ++ dirs) := hr.valid.append hmet.valid
  have hcontains := hm.watches.contains_ofPlace (fun p hp => (hm.seen p hp).valid hr) hplace
  have hwaits : (∀ p ∈ a.waiting, (Path.ofPlace (root ++ dirs)).startsWith p = false) ↔
      ¬Waits root a.waiting dirs := by
    constructor
    · intro hall hwaits
      obtain ⟨p, hp, hpre⟩ := hwaits
      obtain ⟨more, hmore⟩ := hpre
      have hp' : ValidNames p := (show ValidNames (p ++ more) from hmore ▸ hplace).of_append.1
      have hstarts := (Path.startsWith_ofPlace hplace hp').2 ⟨more, hmore⟩
      rw [hall _ hp] at hstarts
      cases hstarts
    · intro hnone p hp
      obtain ⟨d, name, n, rfl, -, hn⟩ := hm.waiting p hp
      rw [← Bool.not_eq_true, Path.startsWith_ofPlace hplace (hm.standing.wellFormed.validNames hn)]
      exact fun hpre => hnone ⟨_, hp, hpre⟩
  rw [← hcontains, ← hwaits, left_iff hr hm.standing hm.knows hmet hdir, Bool.not_eq_true]
  exact ⟨fun hmissed => ⟨hmissed.listed, hmissed.unsubscribed, hmissed.unannounced⟩,
    fun hparts => ⟨hparts.1, hparts.2.1, hparts.2.2⟩⟩

theorem waits_append {ps qs : List Path} : Waits root (ps ++ qs) names ↔ Waits root ps names ∨
    Waits root qs names := by
  simp only [Waits, List.mem_append, or_and_right, exists_or]

theorem waits_make (hplace : ValidNames (dir ++ [name])) (hnames : ValidNames (root ++ names)) :
    Waits root (a.make dir name n).waiting names ↔
      Waits root a.waiting names ∨ Change.isReported a.watch (.ofPlace (dir ++ [name])) ∧
      dir ++ [name] <+: root ++ names := by
  have hnil : ¬Waits root [] names := by simp [Waits]
  rw [make, waits_append]
  split
  next hreported => simp [waits_cons hplace hnames, hnil, hreported]
  next hreported => simp [hnil, hreported]

theorem Invariant.file_of_queued (hm : Invariant h root first gaps held queued a)
    (hvalid : ValidNames names) (hin : .ofNames names ∈ queued) :
    ∃ content t, a.files.at? (root ++ names) = some (.file content t) := by
  obtain ⟨below, content, t, heq, hbelow, hfile⟩ := hm.files _ hin
  have hne := hm.standing.ne_nil_of_file ⟨content, t, hfile⟩
  obtain rfl := (ofNames_eq_iff hvalid hbelow hne).1 heq
  exact ⟨content, t, hfile⟩

theorem waits_concat (hm : Invariant h root first gaps held queued a)
    (hf : Fresh a.files (root ++ dirs) name n) :
    Waits root a.waiting (dirs ++ [name]) ↔ Waits root a.waiting dirs := by
  have hassoc : root ++ (dirs ++ [name]) = root ++ dirs ++ [name] := (List.append_assoc _ _ _).symm
  refine exists_congr fun p => and_congr_right fun hp => ?_
  rw [hassoc, List.prefix_concat_iff, or_iff_right]
  rintro rfl
  obtain ⟨d, name', m, hsame, -, hm'⟩ := hm.waiting _ hp
  have hwf := hm.standing.wellFormed
  exact hf.ne_of_some hm' (Path.components_ofPlace_inj (hf.validNames hwf) (hwf.validNames hm')
    (congrArg _ hsame)).symm

theorem handled_new (hr : Rooted h.builder root) (hm : Invariant h root first gaps held queued a)
    (hf : Fresh a.files (root ++ dirs) name n) (hvalid : ValidNames (dirs ++ [name])) :
    Handled root (a.make (root ++ dirs) name n).waiting a.stage held queued (dirs ++ [name]) ↔
      held (root ++ dirs) ∨ Waits root a.waiting dirs ∨ AtHand a.stage dirs := by
  have hplace := hf.validNames hm.standing.wellFormed
  have hfree : a.files.at? (root ++ (dirs ++ [name])) = none := by
    rw [← List.append_assoc]
    exact hf.free
  have hheld : ¬held (root ++ (dirs ++ [name])) := by
    intro hheld
    obtain ⟨-, -, -, t, ht⟩ := hm.seen _ hheld
    rw [hfree] at ht
    cases ht
  have hqueued : .ofNames (dirs ++ [name]) ∉ queued := by
    intro hin
    obtain ⟨content, t, hfile⟩ := hm.file_of_queued hvalid hin
    rw [hfree] at hfile
    cases hfile
  rw [Handled, waits_make hplace (hr.valid.append hvalid), waits_concat hm hf,
    atHand_concat hm.knows hfree, hm.watches.isReported_iff (fun p hp => (hm.seen p hp).valid hr)
      hplace]
  have hleft := not_left hm.knows hvalid hfree
  simp only [hheld, hleft, hqueued, false_or, or_false, List.append_assoc, List.prefix_refl,
    and_true]
  tauto

theorem handled_kept (hr : Rooted h.builder root) (hm : Invariant h root first gaps held queued a)
    (hf : Fresh a.files dir name n) (hmet : Met h.builder a.files root names)
    (hnew : (∃ t, a.files.at? (root ++ names) = some (.directory t)) ∨
      first.files.at? (root ++ names) = none)
    (hmade : ∀ g, g ∈ gaps' ↔ g ∈ gaps ∨ g = dir ++ [name] ∧ Missed h a dir) :
    Handled root (a.make dir name n).waiting a.stage held queued names ↔
    ∀ g ∈ gaps', ¬g <+: root ++ names := by
  obtain ⟨m, hm'⟩ := hmet.there
  have hout := hf.not_above hm.standing.wellFormed hm'
  have hgaps : (∀ g ∈ gaps', ¬g <+: root ++ names) ↔ ∀ g ∈ gaps, ¬g <+: root ++ names := by
    refine ⟨fun hall g hg => hall g ((hmade g).2 (.inl hg)), fun hall g hg => ?_⟩
    cases (hmade g).1 hg with
    | inl hold => exact hall g hold
    | inr hnow =>
      rw [hnow.1]
      exact hout
  rw [hgaps, ← hm.handled names hmet hnew, Handled, Handled,
    waits_make (hf.validNames hm.standing.wellFormed) (hr.valid.append hmet.valid)]
  simp [hout]

theorem not_atHand_of_left {below : List Text} (hleft : Left stage below) :
    ¬AtHand stage names := by
  cases stage with
  | listed entries => exact id
  | idle | found | opened => exact absurd hleft id

theorem handled_made (hr : Rooted h.builder root) (hm : Invariant h root first gaps held queued a)
    (hf : Fresh a.files (root ++ dirs) name n) (hopen : Open h.builder (dirs ++ [name]))
    (hadmitted : Admitted h.builder.source (dirs ++ [name]))
    (hmade : ∀ g, g ∈ gaps' ↔ g ∈ gaps ∨ g = root ++ dirs ++ [name] ∧ Missed h a (root ++ dirs)) :
    Handled root (a.make (root ++ dirs) name n).waiting a.stage held queued (dirs ++ [name]) ↔
      ∀ g ∈ gaps', ¬g <+: root ++ (dirs ++ [name]) := by
  obtain ⟨t, ht⟩ := hf.directory
  have hdirs : Met h.builder a.files root dirs :=
    ⟨hopen.of_append, hadmitted.of_append hr.isAbsolute hopen.valid, _, ht⟩
  have hmissed := missed_iff hr hm hdirs ⟨t, ht⟩
  rw [handled_new hr hm hf hopen.valid, ← List.append_assoc]
  by_cases hcase : Missed h a (root ++ dirs)
  · obtain ⟨hleft, hunheld, hunwaited⟩ := hmissed.1 hcase
    have hunhanded : ¬AtHand a.stage dirs := not_atHand_of_left hleft
    constructor
    · intro hor
      exact absurd hor (by tauto)
    · intro hall
      exact absurd (List.prefix_refl _) (hall _ ((hmade _).2 (.inr ⟨rfl, hcase⟩)))
  · have hgaps : (∀ g ∈ gaps', ¬g <+: root ++ dirs ++ [name]) ↔
        ∀ g ∈ gaps, ¬g <+: root ++ dirs := by
      constructor
      · intro hall g hg hpre
        exact hall g ((hmade g).2 (.inl hg)) (hpre.trans (List.prefix_append _ _))
      · intro hall g hg hpre
        have hold := ((hmade g).1 hg).resolve_right fun hnow => hcase hnow.2
        obtain ⟨m, hm'⟩ := hm.made g hold
        cases List.prefix_concat_iff.1 hpre with
        | inl heq => exact hf.ne_of_some hm' heq
        | inr hpre => exact hall g hold hpre
    have hqueued : .ofNames dirs ∉ queued := by
      intro hin
      obtain ⟨content, u, hfile⟩ := hm.file_of_queued hdirs.valid hin
      rw [ht] at hfile
      cases hfile
    rw [hgaps, ← hm.handled dirs hdirs (.inl ⟨t, ht⟩), Handled]
    tauto

/-- A file or a directory is made: it is handled if what is above it is, unless it is missed. -/
theorem Invariant.make (hr : Rooted h.builder root) (hm : Invariant h root first gaps held queued a)
    (hf : Fresh a.files dir name n)
    (hmade : ∀ g, g ∈ gaps' ↔ g ∈ gaps ∨ g = dir ++ [name] ∧ Missed h a dir) :
    Invariant h root first gaps' held queued (a.make dir name n) := by
  have hst := hm.standing
  have hst' := hf.standing hst
  have hgrow (p : Place) (m : Node) (hp : a.files.at? p = some m) :
      (a.make dir name n).files.at? p = some m :=
    hf.grows hp
  have hseen {p : Place} (hp : Seen h.builder a.files root p) :
      Seen h.builder (a.make dir name n).files root p := by
    obtain ⟨-, -, -, t, ht⟩ := id hp
    exact hp.congr ((hgrow p _ ht).trans ht.symm)
  refine ⟨hst', fun p m hp => hgrow p m (hm.grown p m hp), fun g hg => ?_, hm.watches,
    fun p hp => hseen (hm.seen p hp), fun p hp => ?_, knows_mono hm.knows hst hst' hgrow, hm.jobs,
    fun rel hrel => ?_, fun names hmet hnew => ?_⟩
  · cases (hmade g).1 hg with
    | inl hold => exact (hm.made g hold).imp fun m hg => hgrow g m hg
    | inr hnow =>
      rw [hnow.1]
      exact ⟨n, Fresh.at?_self⟩
  · cases List.mem_append.1 hp with
    | inl hold =>
      obtain ⟨d, name', m, heq, hd, hm'⟩ := hm.waiting p hold
      exact ⟨d, name', m, heq, hseen hd, hgrow _ m hm'⟩
    | inr hnow =>
      split at hnow
      next hreported =>
        have hheld := (hm.watches.isReported_iff (fun p hp => (hm.seen p hp).valid hr)
          (hf.validNames hst.wellFormed)).1 hreported
        exact ⟨dir, name, n, List.mem_singleton.1 hnow, hseen (hm.seen _ hheld), Fresh.at?_self⟩
      next => cases hnow
  · obtain ⟨names, content, u, heq, hnames, hfile⟩ := hm.files rel hrel
    exact ⟨names, content, u, heq, hnames, hgrow _ _ hfile⟩
  · by_cases hsame : root ++ names = dir ++ [name]
    · obtain ⟨dirs, rfl, rfl⟩ := hf.exists_dirs hst hsame
      exact handled_made hr hm hf hmet.toOpen hmet.admitted hmade
    · have hat : (a.make dir name n).files.at? (root ++ names) = a.files.at? (root ++ names) :=
        Fresh.at?_of_ne hsame
      rw [hat] at hnew
      exact handled_kept hr hm hf ⟨hmet.toOpen, hmet.admitted,
        by rw [← hat]; exact hmet.there⟩ hnew hmade

/-! ### Runs -/

theorem invariant_start (hst : Standing h.builder root fs)
    (hw : ws.Watches (Seen h.builder fs root)) :
    Invariant h root ⟨fs, ws, [], .idle⟩ [] (Seen h.builder fs root) [] ⟨fs, ws, [], .idle⟩ := by
  refine ⟨hst, fun _ _ hp => hp, by simp, hw, fun _ hp => hp, by simp, trivial, by simp, by simp,
    fun names hmet hnew => ?_⟩
  have hheld : Seen h.builder fs root (root ++ names) := by
    cases hnew with
    | inl hdir => exact ⟨names, rfl, hmet, hdir⟩
    | inr hnone =>
      obtain ⟨n, hn⟩ := hmet.there
      rw [hnone] at hn
      cases hn
  simp [Handled, hheld]

theorem Runs.invariant (ha : h.Accepts) (hr : Rooted h.builder root)
    (hm : Invariant h root first [] held queued first) (hrun : Runs h first a gaps) :
    ∃ held' queued', Invariant h root first gaps held' queued' a := by
  induction hrun with
  | start => exact ⟨held, queued, hm⟩
  | step before ih =>
    obtain ⟨_, _, ih⟩ := ih
    exact ih.step ha hr
  | make before fresh noticed ih =>
    obtain ⟨_, _, ih⟩ := ih
    exact ⟨_, _, ih.make hr fresh fun g => (or_iff_left fun hnow => noticed hnow.2).symm⟩
  | miss before fresh missed ih =>
    obtain ⟨_, _, ih⟩ := ih
    exact ⟨_, _, ih.make hr fresh fun g => by simp [missed]⟩

theorem Runs.append (hfirst : Runs h first b gaps) (hrun : Runs h b a more) :
    Runs h first a (gaps ++ more) := by
  induction hrun with
  | start => rwa [List.append_nil]
  | step before ih => exact .step ih
  | make before fresh noticed ih => exact .make ih fresh noticed
  | miss before fresh missed ih =>
    rw [← List.append_assoc]
    exact .miss ih fresh missed

theorem Runs.grows (hrun : Runs h b a more) :
    (∀ p n, b.files.at? p = some n → a.files.at? p = some n) ∧ (∀ g ∈ more, b.files.at? g = none) ∧
      ∃ queued, a.watch.jobs = b.watch.jobs ++ queued := by
  have hnew {a : HandlerState} {dir : Place} {name : Text} {n : Node}
      (hgrow : ∀ p n, b.files.at? p = some n → a.files.at? p = some n)
        (fresh : Fresh a.files dir name n) :
      b.files.at? (dir ++ [name]) = none := by
    cases hat : b.files.at? (dir ++ [name]) with
    | none => rfl
    | some m => exact absurd rfl (fresh.ne_of_some (hgrow _ m hat))
  induction hrun with
  | start => exact ⟨fun _ _ hp => hp, by simp, [], by simp⟩
  | @step a gaps before ih =>
    obtain ⟨hgrow, hgaps, queued, hjobs⟩ := ih
    obtain ⟨hfiles, later, hlater⟩ := step_spec h a
    rw [hfiles]
    exact ⟨hgrow, hgaps, queued ++ later, by rw [hlater, hjobs, List.append_assoc]⟩
  | make before fresh noticed ih =>
    obtain ⟨hgrow, hgaps, hjobs⟩ := ih
    exact ⟨fun p n hp => fresh.grows (hgrow p n hp), hgaps, hjobs⟩
  | miss before fresh missed ih =>
    obtain ⟨hgrow, hgaps, hjobs⟩ := ih
    refine ⟨fun p n hp => fresh.grows (hgrow p n hp), fun g hg => ?_, hjobs⟩
    cases List.mem_append.1 hg with
    | inl hold => exact hgaps g hold
    | inr hnow =>
      rw [List.mem_singleton.1 hnow]
      exact hnew hgrow fresh

theorem Runs.exists_make (hrun : Runs h first a gaps) (hf : Fresh a.files dir name n) :
    ∃ gaps', Runs h first (a.make dir name n) gaps' ∧
      ∀ g, g ∈ gaps' ↔ g ∈ gaps ∨ g = dir ++ [name] ∧ Missed h a dir := by
  by_cases hmissed : Missed h a dir
  · exact ⟨_, .miss hrun hf hmissed, fun g => by simp [hmissed]⟩
  · exact ⟨_, .make hrun hf hmissed, fun g => by simp [hmissed]⟩

theorem apart_iff (hmade : ∀ g, g ∈ gaps' ↔ g ∈ gaps ∨ g = dir ++ [name] ∧ Missed h a dir)
    (hlater : ∀ g ∈ more, ¬g <+: dir ++ [name]) :
    (∀ g ∈ gaps' ++ more, ¬g <+: dir ++ [name]) ↔ ¬Missed h a dir ∧
    ∀ g ∈ gaps, ¬g <+: dir ++ [name] := by
  constructor
  · intro hapart
    refine ⟨fun hmissed => ?_, fun g hg =>
      hapart g (List.mem_append_left _ ((hmade g).2 (.inl hg)))⟩
    exact hapart _ (List.mem_append_left _ ((hmade _).2 (.inr ⟨rfl, hmissed⟩))) (List.prefix_refl _)
  · intro hcase g hg
    obtain ⟨hnoticed, hapart⟩ := hcase
    cases List.mem_append.1 hg with
    | inl hnow =>
      exact hapart g (((hmade g).1 hnow).resolve_right fun hmissed => hnoticed hmissed.2)
    | inr hlast => exact hlater g hlast

theorem Runs.queued_iff (ha : h.Accepts) (hr : Rooted h.builder root)
    (hst : Standing h.builder root fs) (hw : ws.Watches (Seen h.builder fs root))
    (hfirst : Runs h ⟨fs, ws, [], .idle⟩ a gaps) {content : Bytes} {t : Nat}
    (hf : Fresh a.files (root ++ dirs) name (.file content t))
    (hrun : Runs h (a.make (root ++ dirs) name (.file content t)) last more) (hrest : last.AtRest)
    (hmet : Met h.builder last.files root (dirs ++ [name])) :
    ∃ queued, last.watch.jobs = a.watch.jobs ++ queued ∧
      (.ofNames (dirs ++ [name]) ∈ queued ↔
        ¬Missed h a (root ++ dirs) ∧ ∀ g ∈ gaps, ¬g <+: root ++ (dirs ++ [name])) := by
  have hassoc : root ++ dirs ++ [name] = root ++ (dirs ++ [name]) := List.append_assoc _ _ _
  obtain ⟨_, earlier, hbefore⟩ := hfirst.invariant ha hr (invariant_start hst hw)
  obtain ⟨hgrow, hfresh, queued, hjobs⟩ := hrun.grows
  obtain ⟨gaps', hmake, hgaps'⟩ := hfirst.exists_make hf
  obtain ⟨held, all, hafter⟩ := (hmake.append hrun).invariant ha hr (invariant_start hst hw)
  have hfree : a.files.at? (root ++ (dirs ++ [name])) = none := by rw [← hassoc, hf.free]
  have hnone : fs.at? (root ++ (dirs ++ [name])) = none := by
    cases hat : fs.at? (root ++ (dirs ++ [name])) with
    | none => rfl
    | some m =>
      rw [hbefore.grown _ m hat] at hfree
      cases hfree
  have hfile : last.files.at? (root ++ (dirs ++ [name])) = some (.file content t) := by
    rw [← hassoc]
    exact hgrow _ _ Fresh.at?_self
  have hheld : ¬held (root ++ (dirs ++ [name])) := by
    intro hheld
    obtain ⟨-, -, -, u, hu⟩ := hafter.seen _ hheld
    rw [hfile] at hu
    cases hu
  -- What is queued by the end has been queued since the file was made.
  have hall : all = earlier ++ queued := by
    have hsame := hafter.jobs
    rw [hjobs, HandlerState.make, hbefore.jobs, List.append_assoc] at hsame
    exact (List.append_cancel_left hsame).symm
  have hqueued : .ofNames (dirs ++ [name]) ∉ earlier := by
    intro hin
    obtain ⟨content, u, hu⟩ := hbefore.file_of_queued hmet.valid hin
    rw [hfree] at hu
    cases hu
  have hhandled := hafter.handled _ hmet (.inr hnone)
  obtain ⟨hidle, hdone⟩ := hrest
  rw [hidle, hdone, Handled, hall, List.mem_append] at hhandled
  simp only [hheld, hqueued, Waits, List.not_mem_nil, false_and, exists_false, atHand_idle,
    left_idle, false_or] at hhandled
  refine ⟨queued, hjobs, hhandled.trans ?_⟩
  rw [← hassoc]
  have hwf := (hf.standing hbefore.standing).wellFormed
  exact apart_iff hgaps' fun g hg => hwf.not_prefix_of_none (hfresh g hg) Fresh.at?_self

theorem Runs.exists_atRest (ha : h.Accepts) (a : HandlerState) :
    ∃ last, Runs h a last [] ∧ last.AtRest ∧ last.files = a.files := by
  obtain ⟨k, hrest⟩ := HandlerState.exists_atRest ha a
  have hsteps (k : Nat) : Runs h a ((HandlerState.step h)^[k] a) [] ∧
      ((HandlerState.step h)^[k] a).files = a.files := by
    induction k with
    | zero => exact ⟨.start, rfl⟩
    | succ k ih =>
      rw [Function.iterate_succ_apply']
      exact ⟨.step ih.1, (step_spec h _).1.trans ih.2⟩
  exact ⟨_, (hsteps k).1, hrest, (hsteps k).2⟩

theorem not_missed (hstage : ∀ entries, a.stage ≠ .listed entries) : ¬Missed h a dir := by
  intro hmissed
  obtain ⟨entries, heq, -⟩ := hmissed.listed
  exact hstage entries heq

/-- From any state in which the handler has kept up with the tree: of the files that are made from
then on, a file that the walk lists has been queued since, once the handler is at rest, if and only
if it was not missed itself, and no directory above it was. -/
theorem queued_iff_noticed {c : Config} {cli : CommandLine} {start : FileSystem}
    (hstart : start.WellFormed) (hload : Config.load start cli = .ok c)
    (hb : h.builder = .ofConfig c) (ha : h.Accepts) (ht : ChangeHandler.Tracked h fs ws)
    (hfirst : Runs h ⟨fs, ws, [], .idle⟩ a gaps) {content : Bytes} {t : Nat}
    (hf : Fresh a.files (c.source.place ++ dirs) name (.file content t))
    (hrun : Runs h (a.make (c.source.place ++ dirs) name (.file content t)) last more)
    (hrest : last.AtRest) (hlisted : .ofNames (dirs ++ [name]) ∈
      Builder.files ((ofConfig c).collect last.files).1) :
    ∃ queued, last.watch.jobs = a.watch.jobs ++ queued ∧
      (.ofNames (dirs ++ [name]) ∈ queued ↔
        ¬Missed h a (c.source.place ++ dirs) ∧
        ∀ g ∈ gaps, ¬g <+: c.source.place ++ (dirs ++ [name])) := by
  have hr : Rooted (ofConfig c) c.source.place := .of_load hstart hload
  rw [← hb] at hr hlisted
  have hsource : h.builder.source.place = c.source.place := by
    rw [hb]
    rfl
  obtain ⟨hst, hw⟩ := ha.tracked (by rwa [hsource]) ht
  rw [hsource] at hst hw
  obtain ⟨gaps', hmake, -⟩ := hfirst.exists_make hf
  obtain ⟨_, _, hafter⟩ := (hmake.append hrun).invariant ha hr (invariant_start hst hw)
  have hfile := hrun.grows.1 _ _ Fresh.at?_self
  have hvalid := hafter.standing.wellFormed.validNames hfile
  rw [List.append_assoc] at hvalid
  obtain ⟨names, heq, hmet, -⟩ := (mem_files_iff_met hr hafter.standing).1 hlisted
  obtain rfl := (ofNames_eq_iff hmet.valid hvalid.of_append.2 (by simp)).1 heq.symm
  exact hfirst.queued_iff ha hr hst hw hf hrun hrest hmet

open ChangeHandler (notesSiteHandler)

def emptySite : FileSystem where
  nodes := [(["w".toList], .directory 0)]
  here := ["w".toList]
  clock := 5

def emptySiteMade : HandlerState :=
  (⟨emptySite, (notesSiteHandler.subscribeTree emptySite .start).1, [], .idle⟩ : HandlerState).make
    ["w".toList] "d".toList
    (.directory 6)

def emptySiteNested : HandlerState :=
  (emptySiteMade.step notesSiteHandler).make ["w".toList, "d".toList] "e".toList (.directory 7)

def emptySiteGrown : FileSystem :=
  emptySiteNested.files.put ["w".toList, "d".toList, "e".toList, "f".toList] (.file [120] 8)

theorem emptySiteNested_eq : ∃ ws : WatchState, ws.dirs = [.ofString "/w"] ∧ emptySiteNested =
    ⟨emptySiteNested.files, ws, [],
      .found (.ofPlace ["w".toList, "d".toList]) (.ofNames ["d".toList])⟩ := by
  have hstage : emptySiteNested.stage = .found (.ofPlace ["w".toList, "d".toList])
      (.ofNames ["d".toList]) := by cbv
  have hdirs : emptySiteNested.watch.dirs = [.ofString "/w"] := by cbv
  have hwaiting : emptySiteNested.waiting = [] := by cbv
  exact ⟨emptySiteNested.watch, hdirs, by rw [← hstage, ← hwaiting]⟩

theorem emptySiteNested_files : emptySiteNested.files =
    (emptySite.put ["w".toList, "d".toList] (.directory 6)).put ["w".toList, "d".toList, "e".toList]
    (.directory 7) := by
  rw [emptySiteNested, make, (step_spec _ _).1]
  rfl

theorem notesSiteHandler_accepts : notesSiteHandler.Accepts := ⟨fun _ _ => rfl, rfl⟩

theorem emptySiteNested_runs : Runs notesSiteHandler emptySiteMade emptySiteNested [] := by
  have hfiles : (emptySiteMade.step notesSiteHandler).files = emptySite.put ["w".toList, "d".toList]
      (.directory 6) :=
    (step_spec _ _).1
  have hstage : (emptySiteMade.step notesSiteHandler).stage = emptySiteNested.stage := rfl
  obtain ⟨ws, -, heq⟩ := emptySiteNested_eq
  refine .make (.step .start) ?_ (not_missed fun entries hlisted => ?_)
  · rw [hfiles]
    exact ⟨⟨6, by decide⟩, by decide, by decide, rfl⟩
  · rw [hstage, heq] at hlisted
    cases hlisted

theorem emptySiteNested_rooted : Rooted notesSiteHandler.builder ["w".toList] :=
  Rooted.of_load (show notesSite.WellFormed by decide) notesSite_load

theorem notesSiteHandler_shown :
    Open notesSiteHandler.builder (["d".toList, "e".toList] ++ ["f".toList]) := by
  have hshown : notesSiteHandler.builder.policy.excludesPath (.ofNames ["d".toList]) = false ∧
      notesSiteHandler.builder.policy.excludesPath (.ofNames ["d".toList, "e".toList]) = false ∧
      notesSiteHandler.builder.policy.excludesPath (.ofNames ["d".toList, "e".toList, "f".toList]) =
      false := by
    refine ⟨?_, ?_, ?_⟩ <;> cbv
  obtain ⟨hd, he, hf⟩ := hshown
  exact (((Open.nil _).concat (by decide) hd).concat (by decide) he).concat (by decide) hf

theorem emptySiteGrown_file :
    emptySiteGrown.at? ["w".toList, "d".toList, "e".toList, "f".toList] = some (.file [120] 8) :=
  at?_put_self _ (by simp) _

theorem emptySiteNested_fresh :
    Fresh emptySiteNested.files ["w".toList, "d".toList, "e".toList] "f".toList
    (.file [120] 8) := by
  rw [emptySiteNested_files]
  exact ⟨⟨7, by decide⟩, by decide, by decide, rfl⟩

theorem emptySiteNested_standing :
    Standing notesSiteHandler.builder ["w".toList] emptySiteNested.files := by
  rw [emptySiteNested_files]
  exact standing_of_isDirectory (by decide) (by decide) (by decide) (by cbv)

theorem emptySiteGrown_met :
    Met notesSiteHandler.builder emptySiteGrown ["w".toList]
    (["d".toList, "e".toList] ++ ["f".toList]) :=
  ⟨notesSiteHandler_shown, ⟨by cbv, by decide⟩, _, emptySiteGrown_file⟩

theorem emptySiteGrown_listed :
    .ofNames (["d".toList, "e".toList] ++ ["f".toList]) ∈
      Builder.files ((ofConfig notesSiteConfig).collect emptySiteGrown).1 :=
  (mem_files_iff_met emptySiteNested_rooted
    (emptySiteNested_fresh.standing emptySiteNested_standing)).2
    ⟨_, rfl, emptySiteGrown_met, [120], 8, emptySiteGrown_file⟩

theorem emptySiteMade_runs : Runs notesSiteHandler
    ⟨emptySite, (notesSiteHandler.subscribeTree emptySite .start).1, [], .idle⟩ emptySiteMade [] :=
  .make .start ⟨⟨0, by decide⟩, by decide, by decide, rfl⟩
    (not_missed fun _ hlisted => by cases hlisted)

theorem notesSiteConfig_place_append :
    notesSiteConfig.source.place ++ ["d".toList, "e".toList] =
      ["w".toList, "d".toList, "e".toList] := by
  cbv

/-- The file is made before its directory has been listed, and is queued. -/
theorem emptySite_noticed : ∃ last queued,
    Runs notesSiteHandler (emptySiteNested.make ["w".toList, "d".toList, "e".toList] "f".toList
      (.file [120] 8)) last [] ∧
      last.AtRest ∧ last.watch.jobs = emptySiteNested.watch.jobs ++ queued ∧
      .ofString "d/e/f" ∈ queued := by
  obtain ⟨last, hrun, hrest, hfiles⟩ := Runs.exists_atRest notesSiteHandler_accepts
    (emptySiteNested.make ["w".toList, "d".toList, "e".toList] "f".toList (.file [120] 8))
  have hfresh := emptySiteNested_fresh
  rw [← notesSiteConfig_place_append] at hfresh hrun
  have hnot : ¬Missed notesSiteHandler emptySiteNested
      (notesSiteConfig.source.place ++ ["d".toList, "e".toList]) := by
    obtain ⟨ws, -, heq⟩ := emptySiteNested_eq
    rw [heq]
    exact not_missed fun _ hlisted => by cases hlisted
  obtain ⟨queued, hjobs, hiff⟩ := queued_iff_noticed (by decide) notesSite_load rfl
    notesSiteHandler_accepts (.start emptySite (by decide) (by decide) (by cbv))
      (emptySiteMade_runs.append emptySiteNested_runs) hfresh hrun
    hrest (by rw [hfiles]; exact emptySiteGrown_listed)
  rw [notesSiteConfig_place_append] at hrun
  exact ⟨last, queued, hrun, hrest, hjobs, hiff.2 ⟨hnot, by simp⟩⟩

theorem emptySiteNested_missed :
    Missed notesSiteHandler ((emptySiteNested.step notesSiteHandler).step notesSiteHandler)
      ["w".toList, "d".toList, "e".toList] := by
  obtain ⟨ws, hdirs, heq⟩ := emptySiteNested_eq
  have hst := emptySiteNested_standing
  have hdir (p : Place) (t : Nat) (hp : ((emptySite.put ["w".toList, "d".toList] (.directory 6)).put
      ["w".toList, "d".toList, "e".toList] (.directory 7)).at? p = some (.directory t)) :
      emptySiteNested.files.at? p = some (.directory t) := by rwa [emptySiteNested_files]
  have hinner : Present notesSiteHandler ["w".toList] emptySiteNested.files
      ["d".toList, "e".toList] := by
    have hat := hdir ["w".toList, "d".toList, "e".toList] 7 (by decide)
    exact ⟨⟨notesSiteHandler_shown.of_append, ⟨by cbv, by decide⟩, _, hat⟩, by simp, 7, hat⟩
  have houter : Present notesSiteHandler ["w".toList] emptySiteNested.files ["d".toList] := by
    have hat := hdir ["w".toList, "d".toList] 6 (by decide)
    have hmet : Met notesSiteHandler.builder emptySiteNested.files ["w".toList]
        (["d".toList] ++ ["e".toList]) := hinner.toMet
    exact ⟨hmet.of_append emptySiteNested_rooted hst.wellFormed, by simp, 6, hat⟩
  have hentry : ⟨.ofNames ["d".toList, "e".toList], .directory⟩ ∈
      (notesSiteHandler.builder.collectIn emptySiteNested.files (.ofNames ["d".toList])).1 :=
    (mem_collectIn_iff emptySiteNested_rooted hst houter.seen houter.toOpen).2 ⟨["e".toList],
      by simp, hinner.toMet, rfl, (hst.kindAt?_directory_iff hinner.below hinner.valid).2
        ⟨hinner.admitted, hinner.directory⟩⟩
  have hstate : (emptySiteNested.step notesSiteHandler).step notesSiteHandler = _ :=
    congrArg (fun a => (a.step notesSiteHandler).step notesSiteHandler) heq
  rw [hstate]
  refine ⟨⟨_, rfl, _, hentry, rfl, ?_⟩, ?_, by simp [step]⟩
  · rw [emptySiteNested_rooted.join hinner.below hinner.valid]
    rfl
  · simp only [step]
    rw [WatchState.contains_congr (WatchState.foldl_log _ _).1, ← Bool.not_eq_true,
      notesSiteHandler_accepts.contains_subscribe]
    simp only [WatchState.contains, hdirs]
    exact not_or.2 ⟨by decide, fun hsame => absurd hsame.2 (by decide)⟩

/-- Not every file made below a new directory is queued. -/
theorem not_always_queued :
    ¬∀ (start fs : FileSystem) (cli : CommandLine) (c : Config) (h : ChangeHandler)
      (ws : WatchState) (dir : Place) (top : Text) (made : Nat) (a last : HandlerState)
      (gaps more : List Place) (dirs : List Text) (name : Text) (content : Bytes) (t : Nat),
      start.WellFormed → Config.load start cli = .ok c → h.builder = .ofConfig c →
      h.Accepts → ChangeHandler.Tracked h fs ws → Fresh fs dir top (.directory made) →
      Runs h ((⟨fs, ws, [], .idle⟩ : HandlerState).make dir top (.directory made)) a gaps →
      dir ++ [top] <+: c.source.place ++ dirs →
      Fresh a.files (c.source.place ++ dirs) name (.file content t) →
      Runs h (a.make (c.source.place ++ dirs) name (.file content t)) last more → last.AtRest →
      .ofNames (dirs ++ [name]) ∈ Builder.files ((ofConfig c).collect last.files).1 →
        ∃ queued, last.watch.jobs = a.watch.jobs ++ queued ∧
          .ofNames (dirs ++ [name]) ∈ queued := by
  intro hall
  let a := (emptySiteNested.step notesSiteHandler).step notesSiteHandler
  have hrun := emptySiteNested_runs.step.step
  have hfiles : a.files = emptySiteNested.files := (step_spec _ _).1.trans (step_spec _ _).1
  have hfresh : Fresh a.files (["w".toList] ++ ["d".toList, "e".toList]) "f".toList
      (.file [120] 8) := by
    rw [hfiles]
    exact emptySiteNested_fresh
  obtain ⟨last, hlast, hrest, hgrown⟩ := Runs.exists_atRest notesSiteHandler_accepts
    (a.make (["w".toList] ++ ["d".toList, "e".toList]) "f".toList (.file [120] 8))
  have hgrown' : last.files = emptySiteGrown := by
    rw [hgrown, make, hfiles]
    rfl
  have hst : Standing notesSiteHandler.builder ["w".toList] emptySite :=
    standing_of_isDirectory (by decide) (by decide) (by decide) (by cbv)
  obtain ⟨queued, hjobs, hiff⟩ := (emptySiteMade_runs.append hrun).queued_iff
    notesSiteHandler_accepts emptySiteNested_rooted hst
      (notesSiteHandler_accepts.subscribeTree emptySiteNested_rooted hst).2 hfresh hlast hrest
    (by rw [hgrown']; exact emptySiteGrown_met)
  have hplace : (["w".toList] ++ ["d".toList, "e".toList] : Place) =
      notesSiteConfig.source.place ++ ["d".toList, "e".toList] := notesSiteConfig_place_append.symm
  rw [hplace] at hfresh hlast
  obtain ⟨queued', hjobs', hin⟩ := hall notesSite emptySite _ notesSiteConfig notesSiteHandler
    _ ["w".toList] "d".toList 6 a last _ _ _ _ _ _ (by decide) notesSite_load rfl
        notesSiteHandler_accepts
    (.start emptySite (by decide) (by decide) (by cbv)) ⟨⟨0, by decide⟩, by decide, by decide, rfl⟩
      hrun
    (by rw [← hplace]; decide) hfresh hlast hrest (by rw [hgrown']; exact emptySiteGrown_listed)
  obtain rfl := List.append_cancel_left (hjobs.symm.trans hjobs')
  exact (hiff.1 hin).1 emptySiteNested_missed

end HandlerState
end StaticSite
