import StaticSite.Proofs.Keeping
import StaticSite.Proofs.Passes

/-! How a file settles. Once it is built its output is not older than itself, or its plan fails
whatever is in the destination, or something is in the way of its output; and builds of other files
change nothing of that, for they take nothing away and what they write is new. -/
namespace StaticSite

theorem Node.isDirectory_of_blank {m n : Node} (h : m.blank = n.blank) :
    m.isDirectory = n.isDirectory := by
  cases m with
  | file => cases n <;> simp_all [blank, isDirectory]
  | directory => cases n <;> simp_all [blank, isDirectory]
  | link => cases n <;> simp_all [blank, isDirectory]

namespace FileSystem

variable {fs fs' mid : FileSystem} {d p q : Place} {dirs names : List Text} {o : Text} {path : Path}
  {since : Nat} {content : Place → Bytes}

/-- What may come of a state: nothing changes but below `d`, nothing goes away, and a file that is
written is written at `since` or after it, as a directory that something is put into is changed
then. -/
structure Later (d : Place) (since : Nat) (fs fs' : FileSystem) : Prop where
  wellFormed : fs'.WellFormed
  linkFree : fs'.LinkFree
  clock : fs.clock ≤ fs'.clock
  outside : ∀ q, (d <+: q → q = d) → fs'.at? q = fs.at? q
  kept : ∀ q n, fs.at? q = some n →
    fs'.at? q = some n ∨ n.isFile ∧ ∃ content t, since ≤ t ∧ fs'.at? q = some (.file content t)
  stamp : ∀ q n, fs.at? q = some n →
    fs'.stamp? q = fs.stamp? q ∨ ∃ u, since ≤ u ∧ fs'.stamp? q = some u

theorem Later.refl (hwf : fs.WellFormed) (hlf : fs.LinkFree) : Later d since fs fs :=
  ⟨hwf, hlf, Nat.le_refl _, fun _ _ => rfl, fun _ _ hn => .inl hn, fun _ _ _ => .inl rfl⟩

theorem Later.trans (h : Later d since fs mid) (h' : Later d since mid fs') :
    Later d since fs fs' := by
  refine ⟨h'.wellFormed, h'.linkFree, h.clock.trans h'.clock,
    fun q hq => (h'.outside q hq).trans (h.outside q hq), fun q n hn => ?_, fun q n hn => ?_⟩
  · cases h.kept q n hn with
    | inl hsame => exact h'.kept q n hsame
    | inr hnew =>
      obtain ⟨hfile, content, t, ht, hat⟩ := hnew
      refine .inr ⟨hfile, ?_⟩
      cases h'.kept q _ hat with
      | inl hsame => exact ⟨content, t, ht, hsame⟩
      | inr hagain => exact hagain.2
  · obtain ⟨m, hm⟩ : ∃ m, mid.at? q = some m := by
      rcases h.kept q n hn with hsame | ⟨-, content, t, -, hat⟩
      exacts [⟨n, hsame⟩, ⟨_, hat⟩]
    rcases h'.stamp q m hm with hsame | hnew
    · rw [hsame]
      exact h.stamp q n hn
    · exact .inr hnew

theorem Later.keeps (h : Later d since fs fs') : fs.Keeps fs' := by
  refine ⟨h.wellFormed, fun q n hn => ?_⟩
  cases h.kept q n hn with
  | inl hsame => exact ⟨n, hsame, rfl⟩
  | inr hnew =>
    obtain ⟨hfile, content, t, -, hat⟩ := hnew
    cases n with
    | file => exact ⟨_, hat, rfl⟩
    | directory | link => simp [Node.isFile] at hfile

theorem Later.directory (h : Later d since fs fs') (r : Place) (t : Nat)
    (hr : fs.at? r = some (.directory t)) :
    ∃ u, fs'.at? r = some (.directory u) :=
  h.keeps.directory hr

theorem Delivered.later {ps : List Place} {q? : Option Place} (h : Delivered fs fs' ps q? content)
    (hlf : fs.LinkFree) (hsince : since ≤ fs.clock) (hps : ∀ r ∈ ps, d <+: r ∧ r ≠ d)
    (hq : ∀ r, q? = some r → (d <+: r ∧ r ≠ d) ∧ ∀ t, fs.at? r ≠ some (.directory t)) :
    Later d since fs fs' := by
  refine ⟨h.wellFormed, h.linkFree, h.clock, fun r hr => h.other r (fun hmem => ?_) fun heq => ?_,
    fun r n hn => ?_, fun r n hn => ?_⟩
  · obtain ⟨hpre, hne⟩ := hps r hmem
    exact hne (hr hpre)
  · obtain ⟨⟨hpre, hne⟩, -⟩ := hq r heq
    exact hne (hr hpre)
  · by_cases hput : q? = some r
    · obtain ⟨t, ht, hat⟩ := h.put r hput
      refine .inr ⟨?_, content r, t, hsince.trans ht, hat⟩
      cases n with
      | file => rfl
      | directory u => exact absurd hn ((hq r hput).2 u)
      | link => simpa [Node.isLink] using hlf.isLink_eq_false hn
    · left
      by_cases hmem : r ∈ ps
      · obtain ⟨t, hat, hnone | hsame⟩ := h.made r hmem
        · simp [hnone] at hn
        · exact hat.trans (hsame.symm.trans hn)
      · exact (h.other r hmem hput).trans hn
  · rcases h.stamp r n hn with hsame | ⟨⟨u, hu, hnow⟩, -⟩
    exacts [.inl hsame, .inr ⟨u, hsince.trans hu, hnow⟩]

/-! ### What is in the way -/

theorem Keeps.descent_eq (h : fs.Keeps fs')
    (hdirs : ∀ r ∈ (fs.descent p names).1, ∃ t, fs.at? r = some (.directory t)) :
    fs'.descent p names = fs.descent p names := by
  induction names generalizing p with
  | nil => rfl
  | cons name names ih =>
    by_cases hfits : Fits name
    · cases hopen : (fs.at? (p ++ [name])).all Node.isDirectory with
      | true =>
        rw [descent_of_open hfits hopen] at hdirs ⊢
        obtain ⟨t, ht⟩ := hdirs (p ++ [name]) List.mem_cons_self
        obtain ⟨u, hu⟩ := h.directory ht
        have hopen' : (fs'.at? (p ++ [name])).all Node.isDirectory = true := by
          rw [hu]
          rfl
        rw [descent_of_open hfits hopen', ih fun r hr => hdirs r (List.mem_cons_of_mem _ hr)]
      | false =>
        obtain ⟨n, hn⟩ : ∃ n, fs.at? (p ++ [name]) = some n := by
          cases hat : fs.at? (p ++ [name]) with
          | none => simp [hat] at hopen
          | some n => exact ⟨n, rfl⟩
        obtain ⟨n', hn', hblank⟩ := h.kind _ _ hn
        have hshut : (fs'.at? (p ++ [name])).all Node.isDirectory = false := by
          rw [hn] at hopen
          rw [hn', Option.all_some, Node.isDirectory_of_blank hblank]
          exact hopen
        rw [descent_of_shut hfits hopen, descent_of_shut hfits hshut]
    · rw [descent_of_not_fits hfits, descent_of_not_fits hfits]

theorem Keeps.landing_error (h : fs.Keeps fs') {e : IoError}
    (he : fs.landing path d dirs o = .error e) :
    fs'.landing path d dirs o = .error e := by
  rw [landing] at he ⊢
  cases hnone : textRefusal? (path.descend (dirs ++ [o])) with
  | some e' => simpa [hnone] using he
  | none =>
    simp only [hnone] at he ⊢
    by_cases hdots : o = ['.', '.']
    · simpa only [if_pos hdots] using he
    by_cases hfits : Fits o
    · simp only [if_neg hdots, if_pos hfits] at he ⊢
      split at he
      next hdir =>
        obtain ⟨n, hn, hisdir⟩ := (Option.any_eq_true _ _).1 hdir
        obtain ⟨n', hn', hblank⟩ := h.kind _ _ hn
        have hdir' : (fs'.at? (d ++ (dirs ++ [o]))).any Node.isDirectory = true := by
          rw [hn', Option.any_some, Node.isDirectory_of_blank hblank]
          exact hisdir
        rw [if_pos hdir']
        exact he
      · simp at he
    · simpa only [if_neg hdots, if_neg hfits] using he

/-- That an output cannot be written, and that its directories are made as far as they can be. -/
structure Blocked (fs : FileSystem) (path : Path) (d : Place) (dirs : List Text) (o : Text) :
    Prop where
  directories : ∀ r ∈ (fs.approach path d dirs).1, ∃ t, fs.at? r = some (.directory t)
  refused : (fs.approach path d dirs).2 = none → ∃ e, fs.landing path d dirs o = .error e

theorem Blocked.keeps (h : Blocked fs path d dirs o) (hkeeps : fs.Keeps fs') :
    Blocked fs' path d dirs o := by
  have hway : fs'.approach path d dirs = fs.approach path d dirs := by
    have hdirs := h.directories
    rw [approach] at hdirs
    rw [approach, approach]
    cases hnone : textRefusal? (path.descend dirs).trimmed with
    | some e => rfl
    | none =>
      rw [hnone] at hdirs
      exact hkeeps.descent_eq hdirs
  refine ⟨fun r hr => ?_, fun hpass => ?_⟩
  · rw [hway] at hr
    obtain ⟨t, ht⟩ := h.directories r hr
    exact hkeeps.directory ht
  · rw [hway] at hpass
    obtain ⟨e, he⟩ := h.refused hpass
    exact ⟨e, hkeeps.landing_error he⟩

theorem Delivered.blocked (h : Delivered fs fs' (fs.approach path d dirs).1 none content)
    (hrefused : (fs.approach path d dirs).2 = none → ∃ e, fs.landing path d dirs o = .error e) :
    Blocked fs' path d dirs o := by
  have hopen (a : List Text) :
      (fs'.at? (d ++ a)).all Node.isDirectory = (fs.at? (d ++ a)).all Node.isDirectory := by
    by_cases hmem : d ++ a ∈ (fs.approach path d dirs).1
    · obtain ⟨t, ht, -⟩ := h.made _ hmem
      rw [(mem_approach hmem).2, ht]
      rfl
    · rw [h.other _ hmem (by simp)]
  have hway : fs'.approach path d dirs = fs.approach path d dirs := by
    rw [approach, approach]
    cases textRefusal? (path.descend dirs).trimmed with
    | some e => rfl
    | none => exact descent_congr fun a _ _ => hopen a
  refine ⟨fun r hr => ?_, fun hpass => ?_⟩
  · rw [hway] at hr
    obtain ⟨t, ht, -⟩ := h.made r hr
    exact ⟨t, ht⟩
  · rw [hway] at hpass
    obtain ⟨e, he⟩ := hrefused hpass
    refine ⟨e, ?_⟩
    rw [← he, landing, landing, h.other _ (output_not_mem_approach fs path d dirs o) (by simp)]

end FileSystem

namespace Builder

open FileSystem

variable {b : Builder} {fs made cur next : FileSystem} {d : Place} {dirs : List Text}
  {name o : Text} {rel path : Path} {since : Nat} {content : Place → Bytes}
    {wrap : IoError → BuildError} {done : Outcome} {action : Action}

theorem deliver_files_of_error {e : BuildError}
    (h : (deliver fs path content wrap done).2 = .error e) :
    (deliver fs path content wrap done).1 = (ensureParent fs path).1 := by
  rw [deliver] at h ⊢
  cases hparent : ensureParent fs path with
  | mk mid refusal =>
    cases refusal with
    | some e' => rfl
    | none =>
      simp only [hparent] at h
      cases htarget : mid.target path with
      | error e' => simp [deposit, htarget]
      | ok q => simp [deposit, htarget] at h

theorem deliver_of_blocked (h : Blocked fs path d dirs o) (hwf : fs.WellFormed) (hlf : fs.LinkFree)
    (hd : fs.Leads path d) (hdirs : ValidNames dirs) (ho : Path.Plain o) (content : Place → Bytes)
    (wrap : IoError → BuildError) (done : Outcome) :
    ∃ e, deliver fs (path.descend (dirs ++ [o])) content wrap done = (fs, .error e) := by
  obtain ⟨hresult, -⟩ := deliver_spec hwf hlf hd hdirs ho content wrap done
  obtain ⟨e, he⟩ : ∃ e, (course fs path d dirs o wrap).2 = .error e := by
    cases hcourse : (course fs path d dirs o wrap).2 with
    | error e => exact ⟨e, rfl⟩
    | ok q =>
      obtain ⟨hpass, hland⟩ := course_eq_ok.1 hcourse
      obtain ⟨e, he⟩ := h.refused hpass
      simp [hland] at he
  rw [he] at hresult
  have hparent : (ensureParent fs (path.descend (dirs ++ [o]))).1 = fs := by
    rw [ensureParent_files, Path.parent?_descend_concat hd.absolute dirs ho]
    refine makeAll_eq_self hwf (Path.isAbsolute_trimmed (Path.isAbsolute_descend hd.absolute dirs))
      fun q hq => ?_
    have hplanted := (hd.makeAll_descend hwf hlf hdirs).2
    by_cases hmem : q ∈ (fs.approach path d dirs).1
    · obtain ⟨t, ht⟩ := h.directories q hmem
      simp [hq] at ht
    · exact (hplanted.other q hmem).trans hq
  exact ⟨e, Prod.ext ((deliver_files_of_error hresult).trans hparent) hresult⟩

/-! ### Steps -/

/-- A site at the start of a pass. No listed file is from after `since`. -/
structure Steady (b : Builder) (since : Nat) (made : FileSystem) :
    Prop extends Prepared b made where
  detached : b.Detached made
  since_le : since ≤ made.clock
  time : ∀ rel ∈ files (b.collect made).1, ∀ q n, made.stat (b.source.join rel) = .ok (q, n) →
    n.time ≤ since

/-- What the path of a listed file is made of, and that the file is not in the destination. -/
structure ListedFile (b : Builder) (made : FileSystem) (rel : Path) (dirs : List Text)
    (name : Text) :
    Prop where
  path : rel = .ofNames (dirs ++ [name])
  validDirs : ValidNames dirs
  validName : ValidName name
  source : made.Leads b.source b.source.place
  listed : Listed b made b.source.place (dirs ++ [name])
  clear : ¬b.destination.place <+: b.source.place ++ (dirs ++ [name])

theorem Steady.exists_listedFile (h : Steady b since made) (hrel : rel ∈ files (b.collect made).1) :
    ∃ dirs name, ListedFile b made rel dirs name := by
  have hs := leads_source h.linkFree h.source hrel
  obtain ⟨names, rfl, hlisted⟩ := (mem_files_iff h.wellFormed h.linkFree hs).1 hrel
  obtain ⟨dirs, name, rfl, hdirs, hname⟩ := hlisted.exists_name
  exact ⟨dirs, name, rfl, hdirs, hname, hs, hlisted, h.toPrepared.not_below h.detached hlisted hrel⟩

theorem ListedFile.output (hf : ListedFile b made rel dirs name) (hd : b.destination.isAbsolute) :
    b.destinationFor rel = b.destination.descend (dirs ++ [b.outputName dirs name]) := by
  rw [hf.path, destinationFor_ofNames hd hf.validDirs hf.validName]

theorem Steady.exists_content (h : Steady b since made) (hrel : rel ∈ files (b.collect made).1)
    (hf : ListedFile b made rel dirs name) :
    ∃ content t, t ≤ since ∧ ∀ cur, Later b.destination.place since made cur →
      Listed b cur b.source.place (dirs ++ [name]) ∧
        cur.at? (b.source.place ++ (dirs ++ [name])) = some (.file content t) ∧
          cur.stat (b.source.join rel) = .ok (b.source.place ++ (dirs ++ [name]),
            .file content t) := by
  obtain ⟨content, t, hat⟩ := hf.listed.file
  have hall (cur : FileSystem) (hcur : Later b.destination.place since made cur) :
      Listed b cur b.source.place (dirs ++ [name]) ∧
        cur.at? (b.source.place ++ (dirs ++ [name])) = some (.file content t) ∧
          cur.stat (b.source.join rel) = .ok (b.source.place ++ (dirs ++ [name]),
            .file content t) := by
    have hat' := (hcur.outside _ fun hpre => absurd hpre hf.clear).trans hat
    have hlisted := hf.listed.of_file ⟨content, t, hat'⟩
    refine ⟨hlisted, hat', ?_⟩
    rw [hf.path]
    exact hlisted.stat hcur.wellFormed hcur.linkFree (hf.source.mono h.wellFormed hcur.directory)
      hat'
  obtain ⟨-, -, hstat⟩ := hall made (.refl h.wellFormed h.linkFree)
  exact ⟨content, t, h.time rel hrel _ _ hstat, hall⟩

theorem Steady.isUpToDate (h : Steady b since made) (hrel : rel ∈ files (b.collect made).1)
    (hcur : Later b.destination.place since made cur)
    (hnext : Later b.destination.place since cur next)
    (hfresh : isUpToDate cur (b.source.join rel) (b.destinationFor rel) = .ok true) :
    Builder.isUpToDate next (b.source.join rel) (b.destinationFor rel) = .ok true := by
  obtain ⟨dirs, name, hf⟩ := h.exists_listedFile hrel
  obtain ⟨content, t, ht, hall⟩ := h.exists_content hrel hf
  obtain ⟨-, -, hin⟩ := hall cur hcur
  obtain ⟨-, -, hin'⟩ := hall next (hcur.trans hnext)
  have hout : (b.destinationFor rel).isAbsolute := by
    rw [hf.output h.destination.absolute]
    exact Path.isAbsolute_descend h.destination.absolute _
  obtain ⟨p, n, q, m, hstat, hs, hle⟩ := isUpToDate_iff.1 hfresh
  rw [hin, Except.ok.injEq, Prod.mk.injEq] at hstat
  obtain ⟨-, rfl⟩ := hstat
  obtain ⟨m', hs', -⟩ := hnext.keeps.stat hcur.wellFormed hout hs
  refine isUpToDate_iff.2 ⟨_, _, q, m', hin', hs', ?_⟩
  have hat' := (hnext.wellFormed.at?_of_stat hout hs').1
  have hm := (hcur.wellFormed.at?_of_stat hout hs).1
  cases hnext.kept q m hm with
  | inl hsame =>
    rw [hsame, Option.some.injEq] at hat'
    subst hat'
    rcases hnext.stamp q m hm with hstamp | ⟨u, hu, hnow⟩
    · rw [timeOf_congr hstamp]
      exact hle
    · cases m with
      | directory made => exact (ht.trans hu).trans_eq (by rw [timeOf, hnow, Option.getD_some])
      | file | link => exact hle
  | inr hnew =>
    obtain ⟨-, content', u, hu, hat⟩ := hnew
    rw [hat, Option.some.injEq] at hat'
    exact hat' ▸ ht.trans hu

theorem Steady.plan (h : Steady b since made) (hrel : rel ∈ files (b.collect made).1)
    (hcur : Later b.destination.place since made cur) :
    Builder.isUpToDate cur (b.source.join rel) (b.destinationFor rel) = .ok true ∨
    b.plan cur rel = b.plan made rel := by
  have hrefl : Later b.destination.place since made made := .refl h.wellFormed h.linkFree
  obtain ⟨dirs, name, hf⟩ := h.exists_listedFile hrel
  obtain ⟨content, t, -, hall⟩ := h.exists_content hrel hf
  obtain ⟨-, -, hin⟩ := hall made hrefl
  obtain ⟨-, -, hin'⟩ := hall cur hcur
  by_cases hfresh : Builder.isUpToDate cur (b.source.join rel) (b.destinationFor rel) = .ok true
  · exact .inl hfresh
  have hstale : Builder.isUpToDate made (b.source.join rel) (b.destinationFor rel) ≠ .ok true :=
    fun hmade => hfresh (h.isUpToDate hrel hrefl hcur hmade)
  have hfalse {fs : FileSystem} {q : Place} {n : Node}
      (hstat : fs.stat (b.source.join rel) = .ok (q, n))
      (hne : Builder.isUpToDate fs (b.source.join rel) (b.destinationFor rel) ≠ .ok true) :
      Builder.isUpToDate fs (b.source.join rel) (b.destinationFor rel) = .ok false := by
    cases hout : fs.stat (b.destinationFor rel) with
    | error e => exact isUpToDate_of_absent hstat hout
    | ok r =>
      rw [isUpToDate_of_stat hstat hout] at hne ⊢
      simpa using hne
  refine .inr (plan_congr h.wellFormed hcur.wellFormed h.layouts ?_ ?_ fun p hp => ?_)
  · rw [Builder.decide, Builder.decide, hfalse hin' hfresh, hfalse hin hstale]
  · rw [FileSystem.read, FileSystem.read, hin, hin']
  · have habs : p.isAbsolute := by
      obtain ⟨m, rfl | rfl⟩ := mem_reads hp
      · exact Path.isAbsolute_joinText h.includes m
      · exact Path.isAbsolute_joinText h.layouts m
    exact readText_congr h.linkFree hcur.linkFree habs fun r hr =>
      hcur.outside r (h.detached.reads rel hrel p hp r hr)

theorem Steady.perform (h : Steady b since made) (hrel : rel ∈ files (b.collect made).1)
    (hf : ListedFile b made rel dirs name) (hcur : Later b.destination.place since made cur)
    (hne : action ≠ .skip) :
    ∃ content wrap done, b.perform cur rel none action =
      deliver cur (b.destination.descend (dirs ++ [b.outputName dirs name])) content wrap done := by
  obtain ⟨content, t, -, hall⟩ := h.exists_content hrel hf
  obtain ⟨hlisted, hat, -⟩ := hall cur hcur
  have hs := hf.source.mono h.wellFormed hcur.directory
  have hstat := stat_ensureParent hcur.wellFormed hcur.linkFree hs hlisted hat
    (Path.isAbsolute_descend h.destination.absolute (dirs ++ [b.outputName dirs name]))
  rw [← hf.output h.destination.absolute, ← hf.path] at hstat
  rw [← hf.output h.destination.absolute]
  exact ⟨_, _, _, perform_eq_deliver hne hstat⟩

/-- That nothing more comes of a file: it is up to date, or it was refused at the start, or
something is in the way of its output. -/
inductive Settled (b : Builder) (made cur : FileSystem) (rel : Path) : Prop
  | fresh (upToDate : Builder.isUpToDate cur (b.source.join rel) (b.destinationFor rel) = .ok true)
  | refused (e : BuildError) (plan : b.plan made rel = .error e)
  | blocked {dirs : List Text} {name : Text} (listed : ListedFile b made rel dirs name)
      (stuck : Blocked cur b.destination b.destination.place dirs (b.outputName dirs name))

theorem Settled.later (hs : Settled b made cur rel) (h : Steady b since made)
    (hrel : rel ∈ files (b.collect made).1) (hcur : Later b.destination.place since made cur)
    (hnext : Later b.destination.place since cur next) :
    Settled b made next rel := by
  cases hs with
  | fresh hfresh => exact .fresh (h.isUpToDate hrel hcur hnext hfresh)
  | refused e hplan => exact .refused e hplan
  | blocked hf hstuck => exact .blocked hf (hstuck.keeps hnext.keeps)

theorem Steady.deliver (h : Steady b since made) (hrel : rel ∈ files (b.collect made).1)
    (hf : ListedFile b made rel dirs name) (hcur : Later b.destination.place since made cur)
    (content : Place → Bytes) (wrap : IoError → BuildError) (done : Outcome)
    {result : Except BuildError Outcome}
    (hnext : Builder.deliver cur (b.destination.descend (dirs ++ [b.outputName dirs name])) content
      wrap done =
      (next, result)) :
    Later b.destination.place since cur next ∧ Settled b made next rel := by
  have ho : Path.Plain (b.outputName dirs name) := plain_outputName hf.validName
  have hd := h.destination.mono h.wellFormed hcur.directory
  obtain ⟨-, hdelivered⟩ := deliver_spec hcur.wellFormed hcur.linkFree hd hf.validDirs ho content
    wrap done
  rw [hnext] at hdelivered
  have hlater : Later b.destination.place since cur next := by
    refine hdelivered.later hcur.linkFree (h.since_le.trans hcur.clock) (fun r hr => ?_) fun r hr =>
      ?_
    · obtain ⟨a, hne, -, rfl⟩ := mem_course hr
      exact ⟨List.prefix_append _ _, by simpa using hne⟩
    · obtain ⟨-, -, -, hopen, rfl⟩ := of_landing (landing_of_course hr)
      exact ⟨⟨List.prefix_append _ _, by simp⟩, hopen⟩
  refine ⟨hlater, ?_⟩
  cases hcourse : (course cur b.destination b.destination.place dirs (b.outputName dirs name)
    wrap).2 with
  | ok q =>
    -- The content has landed: its time is that of the clock, which no listed file is ahead of.
    obtain ⟨hpass, hland⟩ := course_eq_ok.1 hcourse
    obtain ⟨hnone, hdots, hfits, -, hq⟩ := of_landing hland
    obtain ⟨u, hu, hat⟩ := hdelivered.put q (by rw [hcourse]; rfl)
    obtain ⟨content', t, ht, hall⟩ := h.exists_content hrel hf
    obtain ⟨-, -, hin⟩ := hall next (hcur.trans hlater)
    have hvalid : ValidNames (dirs ++ [b.outputName dirs name]) :=
      hf.validDirs.append fun n hn =>
        List.mem_singleton.1 hn ▸ ⟨ho.ne_nil, ho.noSlash, ho.ne_dot, hdots⟩
    have hadmitted : Admitted b.destination (dirs ++ [b.outputName dirs name]) :=
      ⟨hnone, fun n hn => (List.mem_append.1 hn).elim (fun hn => (approach_passed hpass).1 n hn)
        fun hn => List.mem_singleton.1 hn ▸ hfits⟩
    have hout : next.stat (b.destinationFor rel) = .ok (q, .file (content q) u) := by
      rw [hf.output h.destination.absolute]
      exact ((hd.mono hcur.wellFormed hlater.directory).stat_descend_iff hlater.wellFormed
        hlater.linkFree (by simp) hvalid).2 ⟨hq, hat, hadmitted⟩
    refine .fresh (isUpToDate_iff.2 ⟨_, _, _, _, hin, hout, ?_⟩)
    calc t ≤ since := ht
      _ ≤ cur.clock := h.since_le.trans hcur.clock
      _ ≤ u := hu
  | error e =>
    rw [hcourse, course_fst] at hdelivered
    refine .blocked hf (hdelivered.blocked fun hpass => ?_)
    cases hland : cur.landing b.destination b.destination.place dirs (b.outputName dirs name) with
    | error e' => exact ⟨e', rfl⟩
    | ok q => simp [course_eq_ok.2 ⟨hpass, hland⟩] at hcourse

theorem Steady.buildFile (h : Steady b since made) (hrel : rel ∈ files (b.collect made).1)
    (hcur : Later b.destination.place since made cur) :
    Later b.destination.place since cur (b.buildFile cur rel).files ∧
    Settled b made (b.buildFile cur rel).files rel := by
  have hsame : Later b.destination.place since cur cur := .refl hcur.wellFormed hcur.linkFree
  obtain ⟨dirs, name, hf⟩ := h.exists_listedFile hrel
  cases hplan : b.plan cur rel with
  | error e =>
    have hfiles : (b.buildFile cur rel).files = cur := by
      rw [Builder.buildFile, buildFileFaulty, hplan]
    rw [hfiles]
    refine ⟨hsame, ?_⟩
    cases h.plan hrel hcur with
    | inl hfresh => exact .fresh hfresh
    | inr hstart => exact .refused e (hstart.symm.trans hplan)
  | ok action =>
    have hfiles : (b.buildFile cur rel).files = (b.perform cur rel none action).1 := by
      rw [Builder.buildFile, buildFileFaulty, hplan]
    rw [hfiles]
    by_cases hskip : action = .skip
    · subst hskip
      have hshown : b.policy.excludesPath rel = false := by
        rw [hf.path]
        exact hf.listed.shown _ (by simp) List.prefix_rfl
      exact ⟨hsame, .fresh (isUpToDate_of_skip hshown hplan)⟩
    · obtain ⟨content, wrap, done, hperform⟩ := h.perform hrel hf hcur hskip
      rw [hperform]
      exact h.deliver hrel hf hcur content wrap done rfl

/-- A run over listed files settles them all. -/
theorem Steady.buildFiles (h : Steady b since made) {rels : List Path}
    (hrels : ∀ rel ∈ rels, rel ∈ files (b.collect made).1)
    (hcur : Later b.destination.place since made cur) :
    Later b.destination.place since cur (b.buildFiles cur rels).files ∧
      ∀ rel ∈ rels, Settled b made (b.buildFiles cur rels).files rel := by
  -- By induction on the files: a file that is settled at its turn is kept so by the files after it.
  induction rels generalizing cur with
  | nil => exact ⟨.refl hcur.wellFormed hcur.linkFree, by simp⟩
  | cons rel rels ih =>
    have hrel := hrels rel List.mem_cons_self
    obtain ⟨hstep, hsettled⟩ := h.buildFile hrel hcur
    obtain ⟨hrest, hall⟩ := ih (fun r hr => hrels r (List.mem_cons_of_mem _ hr)) (hcur.trans hstep)
    rw [(buildFiles_cons b cur rel rels).1]
    refine ⟨hstep.trans hrest, fun r hr => ?_⟩
    cases List.mem_cons.1 hr with
    | inl heq =>
      subst heq
      exact hsettled.later h hrel (hcur.trans hstep) hrest
    | inr hmem => exact hall r hmem

/-- That the build of a file changes nothing, and skips the file or fails. -/
structure Idle (b : Builder) (fs : FileSystem) (rel : Path) : Prop where
  files : (b.buildFile fs rel).files = fs
  result : (b.buildFile fs rel).result.toOption = some .skipped ∨
    (b.buildFile fs rel).result.toOption = none

theorem Settled.idle (hs : Settled b made cur rel) (h : Steady b since made)
    (hrel : rel ∈ files (b.collect made).1) (hcur : Later b.destination.place since made cur) :
    Idle b cur rel := by
  have hskip (hplan : b.plan cur rel = .ok .skip) : Idle b cur rel := by
    constructor <;> rw [Builder.buildFile, buildFileFaulty, hplan]
    · rfl
    · exact .inl rfl
  have herror {e : BuildError} (hplan : b.plan cur rel = .error e) : Idle b cur rel := by
    constructor <;> rw [Builder.buildFile, buildFileFaulty, hplan]
    exact .inr rfl
  cases hs with
  | fresh hfresh => exact hskip (plan_of_isUpToDate hfresh)
  | refused e hplan =>
    cases h.plan hrel hcur with
    | inl hfresh => exact hskip (plan_of_isUpToDate hfresh)
    | inr hstart => exact herror (hstart.trans hplan)
  | blocked hf hstuck =>
    cases hplan : b.plan cur rel with
    | error e => exact herror hplan
    | ok action =>
      by_cases hne : action = .skip
      · exact hskip (hne ▸ hplan)
      · obtain ⟨content, wrap, done, hperform⟩ := h.perform hrel hf hcur hne
        obtain ⟨e, hblocked⟩ := deliver_of_blocked hstuck hcur.wellFormed hcur.linkFree
          (h.destination.mono h.wellFormed hcur.directory) hf.validDirs
            (plain_outputName hf.validName) content wrap done
        constructor <;> rw [Builder.buildFile, buildFileFaulty, hplan]
          <;> simp only [hperform, hblocked]
        exact .inr rfl

end Builder
end StaticSite
