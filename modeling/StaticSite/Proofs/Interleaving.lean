import StaticSite.Proofs.Faults
import StaticSite.Proofs.Worker

/-! Edits between the steps of the worker. An edit that comes before the source is read is built,
and so is one that comes after the output is written; one that falls between the two is lost: the
output is written later than the edit, and the job that the edit has queued finds it up to date. -/
namespace StaticSite

open FileSystem

namespace FileSystem

variable {fs : FileSystem} {path : Path} {q : Place}

/-- That the clock is ahead of every file. -/
def ClockAhead (fs : FileSystem) : Prop :=
  ∀ q content t, fs.at? q = some (.file content t) → t < fs.clock

theorem ClockAhead.put (h : fs.ClockAhead) (q : Place) (content : Bytes) :
    (fs.put q (.file content fs.clock)).tick.ClockAhead := by
  intro r c t hr
  have hr : (fs.put q (.file content fs.clock)).at? r = some (.file c t) := hr
  show t < fs.clock + 1
  by_cases heq : r = q
  · subst heq
    by_cases hroot : r = []
    · subst hroot
      cases hr
    · rw [at?_put_self fs hroot] at hr
      cases hr
      omega
  · rw [at?_put_of_ne fs _ heq] at hr
    have := h r c t hr
    omega

theorem ClockAhead.grows {fs' : FileSystem} (h : fs.ClockAhead) (hgrows : fs.Grows fs') :
    fs'.ClockAhead := by
  intro r c t hr
  exact Nat.lt_of_lt_of_le (h r c t (hgrows.at?_of_file hr)) hgrows.clock

theorem ClockAhead.write (h : fs.ClockAhead) (path : Path) (content : Bytes) :
    (fs.write path content none).1.ClockAhead := by
  rw [write_eq_deposit, deposit]
  cases fs.target path with
  | error e => exact h
  | ok q => exact h.put q content

theorem keeps_write (hwf : fs.WellFormed) (hp : path.isAbsolute) (content : Bytes) :
    fs.Keeps (fs.write path content none).1 := by
  rw [write_eq_deposit, deposit]
  cases ht : fs.target path with
  | error e => exact .refl hwf
  | ok q => exact keeps_put hwf hp ht content fs.clock

theorem write_of_stat {old : Bytes} {t : Nat} (h : fs.stat path = .ok (q, .file old t))
    (content : Bytes) :
    (fs.write path content none).1 = (fs.put q (.file content fs.clock)).tick ∧
    fs.target path = .ok q := by
  have ht : fs.target path = .ok q := by rw [target, stat_eq_ok.1 h]
  refine ⟨?_, ht⟩
  rw [write_eq_deposit, deposit, ht]

end FileSystem

namespace Builder

variable {b : Builder} {fs : FileSystem} {rel output : Path} {p : Place} {content : Bytes} {t : Nat}
  {action : Action}

theorem store_cases (hwf : fs.WellFormed) (hp : output.isAbsolute) (content : Bytes) :
    ∃ mid, fs.Grows mid ∧ (store fs output content = mid ∨
      store fs output content = (mid.write output content none).1) := by
  have hgrows := ensureParent_grows hwf hp
  cases hmade : ensureParent fs output with
  | mk mid e =>
    rw [hmade] at hgrows
    cases e with
    | some e => exact ⟨mid, hgrows, .inl (store_of_refused hmade content)⟩
    | none => exact ⟨mid, hgrows, .inr (store_of_made hmade content)⟩

theorem keeps_store (hwf : fs.WellFormed) (hp : output.isAbsolute) (content : Bytes) :
    fs.Keeps (store fs output content) := by
  obtain ⟨mid, hgrows, hstored | hstored⟩ := store_cases hwf hp content <;> rw [hstored]
  · exact hgrows.keeps
  · exact hgrows.keeps.trans (keeps_write hgrows.wellFormed hp content)

theorem clockAhead_store (hwf : fs.WellFormed) (hp : output.isAbsolute) (hahead : fs.ClockAhead)
    (content : Bytes) :
    (store fs output content).ClockAhead := by
  obtain ⟨mid, hgrows, hstored | hstored⟩ := store_cases hwf hp content <;> rw [hstored]
  · exact hahead.grows hgrows
  · exact (hahead.grows hgrows).write output content

def Decides (b : Builder) (rel : Path) (decision : Decision) : Prop :=
  decision = .copy ∨ ∃ conversion, b.transforms.transformFor rel = .render conversion ∧
    decision = .render conversion

theorem decide_cases {decision : Decision} (h : b.decide fs rel = .ok decision)
    (hne : decision ≠ .skip) :
    (b.transforms.transformFor rel = .copy ∧ decision = .copy) ∨
      ∃ conversion, b.transforms.transformFor rel = .render conversion ∧
        decision = .render conversion := by
  rw [decide] at h
  cases hfresh : isUpToDate fs (b.source.join rel) (b.destinationFor rel) with
  | error e => simp [hfresh, Except.map] at h
  | ok fresh =>
    cases fresh with
    | true => exact absurd (by simpa [hfresh, Except.map] using h.symm) hne
    | false =>
      cases htransform : b.transforms.transformFor rel with
      | copy => exact .inl ⟨rfl, by simpa [hfresh, Except.map, htransform] using h.symm⟩
      | render conversion =>
        exact .inr ⟨conversion, rfl, by simpa [hfresh, Except.map, htransform] using h.symm⟩

theorem plan_cases (h : b.plan fs rel = .ok action) (hne : action ≠ .skip) :
    (b.transforms.transformFor rel = .copy ∧ b.begin fs rel = .decided .copy ∧ action = .copy) ∨
      ∃ conversion, b.transforms.transformFor rel = .render conversion ∧
        b.begin fs rel = .decided (.render conversion) ∧
        b.renderFile fs rel conversion = .ok action := by
  rw [plan] at h
  rw [begin]
  split at h
  · exact absurd (Except.ok.inj h).symm hne
  next hshown =>
    rw [if_neg hshown]
    cases hdecide : b.decide fs rel with
    | error e => simp [hdecide] at h
    | ok decision =>
      rw [hdecide] at h
      by_cases hskip : decision = .skip
      · subst hskip
        exact absurd (Except.ok.inj h).symm hne
      · cases decide_cases hdecide hskip with
        | inl hcopy =>
          obtain ⟨htransform, rfl⟩ := hcopy
          exact .inl ⟨htransform, rfl, (Except.ok.inj h).symm⟩
        | inr hrender =>
          obtain ⟨conversion, htransform, rfl⟩ := hrender
          exact .inr ⟨conversion, htransform, rfl, h⟩

theorem written_of_copy (hplan : b.plan fs rel = .ok action) (hne : action ≠ .skip)
    (htransform : b.transforms.transformFor rel = .copy) : written content action = content := by
  cases plan_cases hplan hne with
  | inl hcopy =>
    rw [hcopy.2.2]
    rfl
  | inr hrender =>
    obtain ⟨conversion, hpage, -⟩ := hrender
    rw [hpage] at htransform
    cases htransform

theorem decides_of_begin {decision : Decision} (h : b.begin fs rel = .decided decision) :
    Decides b rel decision := by
  rw [begin] at h
  split at h
  · cases h
  · split at h
    · cases h
    · cases h
    next decision' hne hdecide =>
      cases h
      have hskip : decision ≠ .skip := by
        intro heq
        exact hne (heq ▸ rfl)
      cases decide_cases hdecide hskip with
      | inl hcopy => exact .inl hcopy.2
      | inr hrender => exact .inr hrender

theorem decides_of_fetch {decision decision' : Decision}
    (h : b.fetch fs rel decision = .decided decision') :
    Decides b rel decision' := by
  cases decision with
  | skip => cases h
  | copy =>
    rw [fetch] at h
    split at h <;> cases h
  | render conversion =>
    rw [fetch] at h
    split at h
    · cases h
    · cases h
    · cases h
    · cases h
      exact .inl rfl

end Builder

open Builder

/-- What holds of every state that the worker comes to, from some files on. -/
structure Worker.Invariant (b : Builder) (rel : Path) (fs : FileSystem) (w : Worker) : Prop where
  keeps : fs.Keeps w.files
  ahead : w.files.ClockAhead
  decides : ∀ decision, w.phase = .decided decision → Decides b rel decision

namespace Worker

variable {b : Builder} {rel : Path} {fs : FileSystem} {w : Worker}

theorem Invariant.start (hwf : fs.WellFormed) (hahead : fs.ClockAhead) :
    (start fs).Invariant b rel fs := by
  refine ⟨.refl hwf, hahead, fun decision h => ?_⟩
  cases h

theorem Invariant.edit (h : w.Invariant b rel fs) (hsource : (b.source.join rel).isAbsolute)
    (content : Bytes) :
    (w.edit b rel content).Invariant b rel fs :=
  ⟨h.keeps.trans (keeps_write h.keeps.wellFormed hsource content), h.ahead.write _ content,
    h.decides⟩

theorem Invariant.work (h : w.Invariant b rel fs) (hout : (b.destinationFor rel).isAbsolute) :
    (w.work b rel).Invariant b rel fs := by
  obtain ⟨files, waiting, phase⟩ := w
  cases phase with
  | idle =>
    cases waiting with
    | zero => exact h
    | succ n => exact ⟨h.keeps, h.ahead, fun _ heq => decides_of_begin heq⟩
  | decided decision => exact ⟨h.keeps, h.ahead, fun _ heq => decides_of_fetch heq⟩
  | holding content =>
    refine ⟨h.keeps.trans (keeps_store h.keeps.wellFormed hout content),
      clockAhead_store h.keeps.wellFormed hout h.ahead content, fun decision heq => ?_⟩
    cases heq

theorem Invariant.run (h : w.Invariant b rel fs) (hsource : (b.source.join rel).isAbsolute)
    (hout : (b.destinationFor rel).isAbsolute) (moves : List Move) :
    (w.run b rel moves).Invariant b rel fs := by
  induction moves generalizing w with
  | nil => exact h
  | cons m moves ih =>
    cases m with
    | edit content => exact ih (h.edit hsource content)
    | work => exact ih (h.work hout)

end Worker

namespace Phase

variable {b : Builder} {rel : Path} {fs : FileSystem} {content : Bytes} {action : Action}

/-- What the job at work writes if the files stay as they are. -/
def due? (b : Builder) (rel : Path) (fs : FileSystem) : Phase → Option Bytes
  | .idle => none
  | .holding content => some content
  | .decided .skip => none
  | .decided .copy => (fs.read (b.source.join rel)).toOption
  | .decided (.render conversion) =>
    match b.renderFile fs rel conversion with
    | .error _ => none
    | .ok .skip => none
    | .ok (.write page) => some (Text.Utf8.encode page.text)
    | .ok _ => (fs.read (b.source.join rel)).toOption

/-- What a job writes if its file is edited now, and `page` is the build of the new content. What
was read before the edit is written; a page that was known to have no front matter is copied. -/
def settled (content page : Bytes) : Phase → Bytes
  | .holding held => held
  | .decided .copy => content
  | _ => page

theorem due?_fetch {decision : Decision} :
    (b.fetch fs rel decision).due? b rel fs = (Phase.decided decision).due? b rel fs := by
  cases decision with
  | skip => rfl
  | copy =>
    rw [fetch, due?]
    cases fs.read (b.source.join rel) <;> rfl
  | render conversion =>
    rw [fetch, due?]
    cases b.renderFile fs rel conversion with
    | error e => rfl
    | ok action => cases action <;> rfl

theorem due?_render {conversion : Option Conversion}
    (hread : fs.read (b.source.join rel) = .ok content)
    (h : b.renderFile fs rel conversion = .ok action) :
    (Phase.decided (.render conversion)).due? b rel fs = some (written content action) := by
  rw [due?, h]
  cases action with
  | skip => exact absurd h (renderFile_ne_skip conversion)
  | copy | copyVerbatim => simp [hread, written, Except.toOption]
  | write page => rfl

theorem due?_begin (hread : fs.read (b.source.join rel) = .ok content)
    (hplan : b.plan fs rel = .ok action) (hne : action ≠ .skip) :
    (b.begin fs rel).due? b rel fs = some (written content action) := by
  cases plan_cases hplan hne with
  | inl hcopy =>
    obtain ⟨-, hbegin, rfl⟩ := hcopy
    rw [hbegin, due?, hread]
    rfl
  | inr hrender =>
    obtain ⟨conversion, -, hbegin, hpage⟩ := hrender
    rw [hbegin]
    exact due?_render hread hpage

end Phase

namespace Worker

variable {b : Builder} {rel : Path} {fs : FileSystem} {due : Bytes} {w : Worker}

/-- The states after the last edit: what is due is still to be written, or it is written. -/
inductive AfterEdit (b : Builder) (rel : Path) (fs : FileSystem) (due : Bytes) : Worker → Prop
  | queued (n : Nat) (next : (b.begin fs rel).due? b rel fs = some due) :
      AfterEdit b rel fs due ⟨fs, n + 1, .idle⟩
  | busy (n : Nat) (phase : Phase) (next : phase.due? b rel fs = some due) :
      AfterEdit b rel fs due ⟨fs, n, phase⟩
  | done (n : Nat) : AfterEdit b rel fs due ⟨Builder.store fs (b.destinationFor rel) due, n, .idle⟩

theorem begin_of_isUpToDate (h : isUpToDate fs (b.source.join rel) (b.destinationFor rel) =
      .ok true) :
    b.begin fs rel = .idle := by
  rw [begin]
  split
  · rfl
  · simp [Builder.decide, h, Except.map]

/-- One step: what is due stays due until it is written, and once it is, nothing more is done. -/
theorem AfterEdit.work (h : AfterEdit b rel fs due w)
    (hfresh : isUpToDate (Builder.store fs (b.destinationFor rel) due) (b.source.join rel)
      (b.destinationFor rel) = .ok true) :
    AfterEdit b rel fs due (w.work b rel) := by
  cases h with
  | queued n hnext => exact .busy n _ hnext
  | busy n phase hnext =>
    cases phase with
    | idle => cases hnext
    | decided decision => exact .busy n _ (Phase.due?_fetch.trans hnext)
    | holding content =>
      cases hnext
      exact .done n
  | done n =>
    cases n with
    | zero => exact .done 0
    | succ n =>
      rw [Worker.work]
      simp only
      rw [begin_of_isUpToDate hfresh]
      exact .done n

theorem AfterEdit.run (h : AfterEdit b rel fs due w)
    (hfresh : isUpToDate (Builder.store fs (b.destinationFor rel) due) (b.source.join rel)
      (b.destinationFor rel) = .ok true)
    (k : Nat) : AfterEdit b rel fs due (w.run b rel (List.replicate k .work)) := by
  induction k generalizing w with
  | zero => exact h
  | succ k ih =>
    rw [run_work_succ]
    exact ih (h.work hfresh)

theorem AfterEdit.files_of_atRest (h : AfterEdit b rel fs due w) (hrest : w.AtRest) :
    w.files = Builder.store fs (b.destinationFor rel) due := by
  cases h with
  | queued n => cases hrest.1
  | busy n phase hnext =>
    rw [show phase = .idle from hrest.2] at hnext
    cases hnext
  | done n => rfl

end Worker

namespace Builder

variable {b : Builder} {fs mid : FileSystem} {rel : Path} {p q : Place} {content old : Bytes}
  {t : Nat} {outcome : Outcome}

/-- That the output of a file, once its directory is made, is no directory and not the file
itself. -/
def OutputApart (b : Builder) (fs : FileSystem) (rel : Path) : Prop :=
  ∀ q n, (ensureParent fs (b.destinationFor rel)).1.stat (b.destinationFor rel) = .ok (q, n) →
    n.isFile ∧ fs.stat (b.source.join rel) ≠ .ok (q, n)

theorem not_isUpToDate_of_edit (hwf : fs.WellFormed) (hahead : fs.ClockAhead)
    (hin : (b.source.join rel).isAbsolute) (hout : (b.destinationFor rel).isAbsolute)
    (hs : fs.stat (b.source.join rel) = .ok (p, .file old t))
    (hapart : OutputApart b (fs.put p (.file content fs.clock)).tick rel) :
    isUpToDate (fs.put p (.file content fs.clock)).tick (b.source.join rel) (b.destinationFor rel) ≠
      .ok true := by
  intro hfresh
  -- The output that the comparison has seen is still there when its directory is made, so it is
  -- apart from the file.
  have htarget := (write_of_stat hs content).2
  have hwf' := (keeps_put hwf hin htarget content fs.clock).wellFormed
  obtain ⟨p', n, r, m, hn, hm, hle⟩ := isUpToDate_iff.1 hfresh
  have hedited := stat_put_target hwf hin htarget content fs.clock
  rw [hedited] at hn
  obtain ⟨rfl, rfl⟩ := Prod.mk.inj (Except.ok.inj hn)
  have hgrows := ensureParent_grows hwf' hout
  obtain ⟨m', hm', -⟩ := hgrows.keeps.stat hwf' hout hm
  have hat := (hwf'.at?_of_stat hout hm).1
  have hsame : m' = m := by
    have hat' := (hgrows.wellFormed.at?_of_stat hout hm').1
    rw [hgrows.at?_of_some hat, Option.some.injEq] at hat'
    exact hat'.symm
  subst hsame
  obtain ⟨hfile, hne⟩ := hapart r m' hm'
  by_cases hrp : r = p
  · subst hrp
    rw [(hwf'.at?_of_stat hin hedited).1, Option.some.injEq] at hat
    exact hne (hat ▸ hedited)
  · rw [at?_tick, at?_put_of_ne fs _ hrp] at hat
    cases m' with
    | file c u =>
      have hlt := hahead r c u hat
      simp only [timeOf, Node.time] at hle
      omega
    | directory u => cases hfile
    | link target => cases hfile

theorem target_ne_of_apart (hwf : fs.WellFormed) (hin : (b.source.join rel).isAbsolute)
    (hout : (b.destinationFor rel).isAbsolute)
    (hs : fs.stat (b.source.join rel) = .ok (p, .file content t)) (hapart : OutputApart b fs rel) :
    (ensureParent fs (b.destinationFor rel)).1.target (b.destinationFor rel) ≠ .ok p := by
  intro ht
  have hgrows := ensureParent_grows hwf hout
  have hat := hgrows.at?_of_some (hwf.at?_of_stat hin hs).1
  cases (hgrows.wellFormed.of_target hout ht).2 with
  | inl hfound =>
    obtain ⟨c, u, hfind, hat'⟩ := hfound
    rw [hat, Option.some.injEq] at hat'
    exact (hapart p _ (stat_eq_ok.2 hfind)).2 (hat' ▸ hs)
  | inr hfree =>
    rw [hfree.2] at hat
    cases hat

theorem read_of_store (hwf : fs.WellFormed) (hin : (b.source.join rel).isAbsolute)
    (hout : (b.destinationFor rel).isAbsolute)
    (hs : fs.stat (b.source.join rel) = .ok (p, .file content t)) (htime : t ≤ fs.clock)
    (hmade : ensureParent fs (b.destinationFor rel) = (mid, none))
    (ht : mid.target (b.destinationFor rel) = .ok q) (due : Bytes) :
    (store fs (b.destinationFor rel) due).read (b.destinationFor rel) = .ok due ∧
      isUpToDate (store fs (b.destinationFor rel) due) (b.source.join rel) (b.destinationFor rel) =
        .ok true := by
  have hgrows : fs.Grows mid := by
    have hgrows := ensureParent_grows hwf hout
    rwa [hmade] at hgrows
  have houtput := stat_put_target hgrows.wellFormed hout ht due mid.clock
  obtain ⟨n, hn, hcase⟩ := stat_source_of_put hwf hin hout hgrows ht hs due
  rw [store_of_target hmade ht due]
  refine ⟨read_of_stat houtput, isUpToDate_iff.2 ⟨p, n, q, _, hn, houtput, ?_⟩⟩
  split at hcase
  · rw [hcase]
    rfl
  · rw [hcase]
    exact htime.trans hgrows.clock

theorem stored_of_build (hwf : fs.WellFormed) (hin : (b.source.join rel).isAbsolute)
    (hout : (b.destinationFor rel).isAbsolute) (hshown : b.policy.excludesPath rel = false)
    (hs : fs.stat (b.source.join rel) = .ok (p, .file content t)) (htime : t ≤ fs.clock)
    (hstale : isUpToDate fs (b.source.join rel) (b.destinationFor rel) ≠ .ok true)
    (hapart : OutputApart b fs rel) (hbuilds : (b.buildFile fs rel).result = .ok outcome) :
    ∃ action, b.plan fs rel = .ok action ∧ action ≠ .skip ∧ outcome ≠ .skipped ∧
      (b.buildFile fs rel).files = store fs (b.destinationFor rel) (written content action) ∧
      ∀ due, (store fs (b.destinationFor rel) due).read (b.destinationFor rel) = .ok due ∧
        isUpToDate (store fs (b.destinationFor rel) due) (b.source.join rel)
        (b.destinationFor rel) = .ok true := by
  cases hplan : b.plan fs rel with
  | error e => simp [buildFile, buildFileFaulty, hplan] at hbuilds
  | ok action =>
    have hne : action ≠ .skip := by
      intro heq
      rw [heq] at hplan
      exact hstale (isUpToDate_of_skip hshown hplan)
    have hdone : (b.perform fs rel none action).2 = .ok outcome := by
      rw [← hbuilds, buildFile, buildFileFaulty, hplan]
    have houtcome : outcome ≠ .skipped := by
      intro heq
      rw [heq] at hdone
      exact perform_ne_skipped hne hdone
    refine ⟨action, rfl, hne, houtcome, ?_, ?_⟩
    · rw [files_of_plan hplan]
      exact perform_eq_store hwf hin hout hs (target_ne_of_apart hwf hin hout hs hapart) hne
    · rw [perform_eq_deliver hne (stat_ensureParent_of_file hwf hin hout hs)] at hdone
      obtain ⟨-, mid, q, hmade, hq⟩ := deliver_eq_ok hdone
      exact read_of_store hwf hin hout hs htime hmade hq

end Builder

namespace Worker

variable {b : Builder} {rel : Path} {fs : FileSystem} {w : Worker} {content page due : Bytes}
  {action : Action}

theorem Invariant.edited (h : w.Invariant b rel fs) (hwf : fs.WellFormed)
    (hin : (b.source.join rel).isAbsolute) (hout : (b.destinationFor rel).isAbsolute)
    (hfile : fs.isFile (b.source.join rel))
    (hapart : OutputApart b (w.edit b rel content).files rel) :
    ∃ p t, (w.edit b rel content).files.WellFormed ∧
      (w.edit b rel content).files.stat (b.source.join rel) = .ok (p, .file content t) ∧
      t ≤ (w.edit b rel content).files.clock ∧
      isUpToDate (w.edit b rel content).files (b.source.join rel) (b.destinationFor rel) ≠
        .ok true := by
  have hwf' := h.keeps.wellFormed
  obtain ⟨p, old, u, hbefore⟩ := isFile_iff.1 (h.keeps.isFile hwf hin hfile)
  obtain ⟨hput, htarget⟩ := write_of_stat hbefore content
  have hfiles : (w.edit b rel content).files = (w.files.put p (.file content w.files.clock)).tick :=
    hput
  rw [hfiles] at hapart ⊢
  exact ⟨p, w.files.clock, (keeps_put hwf' hin htarget content _).wellFormed,
    stat_put_target hwf' hin htarget content _, Nat.le_succ _,
    not_isUpToDate_of_edit hwf' h.ahead hin hout hbefore hapart⟩

/-- The last edit leaves a debt: that of the job at work, or else that of the job queued for the
edit. -/
theorem afterEdit_of_edit (hinvariant : w.Invariant b rel fs)
    (hread : (w.edit b rel content).files.read (b.source.join rel) = .ok content)
    (hplan : b.plan (w.edit b rel content).files rel = .ok action) (hne : action ≠ .skip) :
    AfterEdit b rel (w.edit b rel content).files (w.phase.settled content (written content action))
      (w.edit b rel content) := by
  have hdecides := hinvariant.decides
  obtain ⟨before, waiting, phase⟩ := w
  cases phase with
  | idle => exact .queued waiting (Phase.due?_begin hread hplan hne)
  | holding held => exact .busy (waiting + 1) (.holding held) rfl
  | decided decision =>
    cases hdecides decision rfl with
    | inl hcopy =>
      subst hcopy
      refine .busy (waiting + 1) (.decided .copy) ?_
      rw [Phase.due?, hread]
      rfl
    | inr hrender =>
      obtain ⟨conversion, htransform, rfl⟩ := hrender
      refine .busy (waiting + 1) (.decided (.render conversion)) ?_
      cases plan_cases hplan hne with
      | inl hcopy =>
        rw [hcopy.1] at htransform
        cases htransform
      | inr hpage =>
        obtain ⟨conversion', htransform', -, hpage⟩ := hpage
        rw [htransform] at htransform'
        cases htransform'
        exact Phase.due?_render hread hpage

end Worker

namespace Builder

variable {fs : FileSystem} {rel : Path} {content : Bytes} {moves : List Move} {k : Nat}
  {seen edited last : Worker} {outcome : Outcome}

/-- The output of a watched file when the worker is at rest after any edits, of which `content` is
the last. It is the build of that content unless the edit has fallen between a reading of the file
and the write that follows it: then it is what was read before the edit, or the content as it is if
only the second reading comes after it. -/
theorem output_at_rest {c : Config} {cli : CommandLine} {start : FileSystem}
    (hstart : start.WellFormed) (hload : Config.load start cli = .ok c) (hwf : fs.WellFormed)
    (hahead : fs.ClockAhead) (hrel : rel ∈ files ((ofConfig c).collect fs).1)
    (hseen : (Worker.start fs).run (ofConfig c) rel moves = seen)
    (hedited : seen.edit (ofConfig c) rel content = edited)
    (hlast : edited.run (ofConfig c) rel (List.replicate k .work) = last) (hrest : last.AtRest)
    (hapart : OutputApart (ofConfig c) edited.files rel)
    (hbuilds : ((ofConfig c).buildFile edited.files rel).result = .ok outcome) :
    edited.files.read (c.source.join rel) = .ok content ∧ outcome ≠ .skipped ∧
      ∃ page, ((ofConfig c).buildFile edited.files rel).files.read
        ((ofConfig c).destinationFor rel) = .ok page ∧
        last.files.read ((ofConfig c).destinationFor rel) = .ok (seen.phase.settled content page) ∧
        ((ofConfig c).transforms.transformFor rel = .copy → page = content) := by
  have hc := Config.loaded_of_load hstart hload
  have hin : (c.source.join rel).isAbsolute := Path.isAbsolute_join_left hc.isAbsolute_source
  obtain ⟨hshown, hout⟩ :=
    shown_of_mem_files (b := ofConfig c) hwf hc.isAbsolute_source hc.destination.isAbsolute hrel
  have hinvariant : seen.Invariant (ofConfig c) rel fs :=
    hseen ▸ (Worker.Invariant.start hwf hahead).run hin hout moves
  have hfile := isFile_of_mem_files (b := ofConfig c) hwf hc.isAbsolute_source hrel
  subst hedited
  -- The edit is the newest change, so only a write that comes after it can hide it from a
  -- comparison.
  obtain ⟨p, t, hwf', hs, htime, hstale⟩ := hinvariant.edited hwf hin hout hfile hapart
  have hread := read_of_stat hs
  obtain ⟨action, hplan, hne, houtcome, hbuilt, hstored⟩ :=
    stored_of_build hwf' hin hout hshown hs htime hstale hapart hbuilds
  have hafterEdit := Worker.afterEdit_of_edit hinvariant hread hplan hne
  have hend := (hafterEdit.run (hstored _).2 k).files_of_atRest (hlast ▸ hrest)
  refine ⟨hread, houtcome, written content action, ?_, ?_, written_of_copy hplan hne⟩
  · rw [hbuilt]
    exact (hstored _).1
  · rw [← hlast, hend]
    exact (hstored _).1

/-- A worker at the copied file of the site: the file has been edited, and the job for that edit has
read it. -/
def notesWorker : Worker :=
  (Worker.start notesSiteMade).run (ofConfig notesSiteConfig) (.ofString "b")
    [.edit [1], .work, .work]

theorem notesSiteMade_clockAhead : notesSiteMade.ClockAhead := by
  intro q content t hat
  have hall : ∀ e ∈ notesSiteMade.nodes, e.2.time < 6 := by decide
  have hq : q ≠ [] := by
    intro heq
    subst heq
    cases hat
  exact hall _ (mem_nodes_of_at? hq hat)

theorem notesWorker_edited :
    notesWorker.phase = .holding [1] ∧
      ((notesWorker.edit (ofConfig notesSiteConfig) (.ofString "b") [2]).run
        (ofConfig notesSiteConfig) (.ofString "b") (List.replicate 2 .work)).AtRest ∧
      ((ofConfig notesSiteConfig).buildFile
        (notesWorker.edit (ofConfig notesSiteConfig) (.ofString "b") [2]).files
        (.ofString "b")).result = .ok .copied := by
  refine ⟨by cbv, ⟨by cbv, by cbv⟩, by cbv⟩

theorem notesWorker_apart :
    OutputApart (ofConfig notesSiteConfig)
    (notesWorker.edit (ofConfig notesSiteConfig) (.ofString "b") [2]).files
      (.ofString "b") := by
  have hnone : (ensureParent (notesWorker.edit (ofConfig notesSiteConfig) (.ofString "b") [2]).files
      ((ofConfig notesSiteConfig).destinationFor (.ofString "b"))).1.stat
        ((ofConfig notesSiteConfig).destinationFor (.ofString "b")) = .error .notFound := by cbv
  intro q n h
  rw [hnone] at h
  cases h

/-- The second edit is lost: the output stays what the job has read before it. -/
theorem notesSite_edit_lost :
    ((notesWorker.edit (ofConfig notesSiteConfig) (.ofString "b") [2]).run
      (ofConfig notesSiteConfig) (.ofString "b") (List.replicate 2 .work)).files.read
      ((ofConfig notesSiteConfig).destinationFor (.ofString "b")) = .ok [1] := by
  have hseen : (Worker.start notesSiteMade).run (ofConfig notesSiteConfig) (.ofString "b")
      [.edit [1], .work, .work] =
      notesWorker := rfl
  obtain ⟨hphase, hrest, hbuilds⟩ := notesWorker_edited
  obtain ⟨-, -, page, -, hread, -⟩ := output_at_rest (by decide) notesSite_load (by decide)
    notesSiteMade_clockAhead (by rw [notesSiteMade_files]; simp) hseen rfl rfl hrest
      notesWorker_apart
      hbuilds
  rw [hread, hphase]
  rfl

/-- The output at rest is not always the build of the last content. -/
theorem not_always_last :
    ¬∀ (start fs : FileSystem) (cli : CommandLine) (c : Config) (rel : Path) (moves : List Move)
      (content : Bytes) (k : Nat) (edited last : Worker) (outcome : Outcome), start.WellFormed →
      Config.load start cli = .ok c →
      fs.WellFormed → fs.ClockAhead → rel ∈ files ((ofConfig c).collect fs).1 →
      ((Worker.start fs).run (ofConfig c) rel moves).edit (ofConfig c) rel content = edited →
      edited.run (ofConfig c) rel (List.replicate k .work) = last → last.AtRest →
      OutputApart (ofConfig c) edited.files rel →
      ((ofConfig c).buildFile edited.files rel).result = .ok outcome →
        last.files.read ((ofConfig c).destinationFor rel) =
          ((ofConfig c).buildFile edited.files rel).files.read
          ((ofConfig c).destinationFor rel) := by
  intro h
  obtain ⟨-, hrest, hbuilds⟩ := notesWorker_edited
  have hsame := h notesSite notesSiteMade _ _ _ [.edit [1], .work, .work] [2] 2 _ _ _ (by decide)
    notesSite_load (by decide) notesSiteMade_clockAhead (by rw [notesSiteMade_files]; simp) rfl rfl
      hrest
      notesWorker_apart hbuilds
  have hread :
      ((notesWorker.edit (ofConfig notesSiteConfig) (.ofString "b") [2]).run
        (ofConfig notesSiteConfig)
      (.ofString "b") (List.replicate 2 .work)).files.read
        ((ofConfig notesSiteConfig).destinationFor (.ofString "b")) =
        .ok [1] := by cbv
  have hbuilt : ((ofConfig notesSiteConfig).buildFile
      (notesWorker.edit (ofConfig notesSiteConfig) (.ofString "b") [2]).files
        (.ofString "b")).files.read
        ((ofConfig notesSiteConfig).destinationFor (.ofString "b")) = .ok [2] := by cbv
  have hboth := hread.symm.trans (hsame.trans hbuilt)
  exact absurd (Except.ok.inj hboth) (by decide)

end Builder
end StaticSite
