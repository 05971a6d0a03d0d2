import StaticSite.Proofs.Documents
import StaticSite.Proofs.Outputs
import StaticSite.Watch.Change

/-! The handler of changes, function by function: what each adds to the subscriptions and takes from
them, and what it queues. A subscription is told by the names of its directory below the source; all
of them are directories that no rule leaves out. -/
namespace StaticSite

open FileSystem

def WatchEffect.job? : WatchEffect → Option Path
  | .queued rel => some rel
  | _ => none

namespace WatchState

variable {s : WatchState} {d dir : Path}

def jobs (s : WatchState) : List Path := s.effects.filterMap (·.job?)

@[simp] theorem dirs_log (s : WatchState) (line : Log.Line) : (s.log line).dirs = s.dirs := rfl

@[simp] theorem jobs_log (s : WatchState) (line : Log.Line) : (s.log line).jobs = s.jobs := by
  simp [jobs, log, emit, WatchEffect.job?]

@[simp] theorem jobs_emit_queued (s : WatchState) (rel : Path) :
    (s.emit (.queued rel)).jobs = s.jobs ++ [rel] := by
  simp [jobs, emit, WatchEffect.job?]

@[simp] theorem jobs_forget (s : WatchState) (dir : Path) : (s.forget dir).jobs = s.jobs := by
  simp [jobs, forget, List.filterMap_append, WatchEffect.job?]

theorem foldl_log (s : WatchState) (lines : List Log.Line) :
    (lines.foldl log s).dirs = s.dirs ∧ (lines.foldl log s).jobs = s.jobs := by
  induction lines generalizing s with
  | nil => exact ⟨rfl, rfl⟩
  | cons line lines ih => simpa using ih (s.log line)

theorem contains_iff : s.contains d ↔ ∃ m ∈ s.dirs, m.components = d.components := by
  simp [contains]

theorem contains_congr {s' : WatchState} (h : s'.dirs = s.dirs) (d : Path) :
    s'.contains d = s.contains d := by
  rw [contains, contains, h]

theorem mem_forget : d ∈ (s.forget dir).dirs ↔ d ∈ s.dirs ∧ d.startsWith dir = false := by
  simp [forget]

theorem contains_forget : (s.forget dir).contains d ↔ s.contains d ∧ d.startsWith dir = false := by
  rw [contains_iff, contains_iff]
  constructor
  · intro h
    obtain ⟨m, hm, heq⟩ := h
    obtain ⟨hmem, hout⟩ := mem_forget.1 hm
    refine ⟨⟨m, hmem, heq⟩, ?_⟩
    rwa [Path.startsWith, ← heq]
  · intro h
    obtain ⟨⟨m, hm, heq⟩, hout⟩ := h
    refine ⟨m, mem_forget.2 ⟨hm, ?_⟩, heq⟩
    rwa [Path.startsWith, heq]

end WatchState

theorem Path.text_ofNames_ne_nil {names : List Text} (hne : names ≠ [])
    (hvalid : ValidNames names) :
    (ofNames names).text ≠ [] := by
  intro hnil
  have hpieces : [[]] = names := by
    rw [← Text.pieces_join hne fun n hn => (hvalid n hn).noSlash]
    exact (congrArg Text.pieces hnil).symm
  exact (hvalid [] (by simp [← hpieces])).ne_nil rfl

namespace Builder

variable {b : Builder} {fs : FileSystem} {above names : List Text} {name : Text} {e : SourceEntry}

/-- That no rule leaves out the path of some names below the source, nor a path above it. -/
structure Open (b : Builder) (names : List Text) : Prop where
  valid : ValidNames names
  shown : ∀ a, a ≠ [] → a <+: names → b.policy.excludesPath (.ofNames a) = false

theorem Open.nil (b : Builder) : Open b [] := by
  refine ⟨by simp [ValidNames], fun a ha hpre => ?_⟩
  exact absurd (List.prefix_nil.1 hpre) ha

theorem Open.of_append (h : Open b (above ++ names)) : Open b above :=
  ⟨h.valid.of_append.1, fun a ha hpre => h.shown a ha (hpre.trans (List.prefix_append _ _))⟩

theorem Open.append (h : Open b above) (hvalid : ValidNames names)
    (hshown : ∀ a, a ≠ [] → a <+: names → b.policy.excludesPath (.ofNames (above ++ a)) = false) :
    Open b (above ++ names) := by
  refine ⟨h.valid.append hvalid, fun a ha hpre => ?_⟩
  cases List.prefix_or_prefix_of_prefix hpre (List.prefix_append above names) with
  | inl habove => exact h.shown a ha habove
  | inr hbelow =>
    obtain ⟨more, rfl⟩ := hbelow
    by_cases hmore : more = []
    · rw [hmore, List.append_nil] at ha ⊢
      exact h.shown above ha (List.prefix_refl above)
    · exact hshown more hmore ((List.prefix_append_right_inj above).1 hpre)

theorem Open.concat (h : Open b names) (hname : ValidName name)
    (hshown : b.policy.excludesPath (.ofNames (names ++ [name])) = false) :
    Open b (names ++ [name]) := by
  refine h.append (by simpa [ValidNames] using hname) fun a ha hpre => ?_
  rwa [hpre.eq_of_length_le (List.length_pos_iff.2 ha)]

theorem open_of_mem_collectIn (hwf : fs.WellFormed) (hs : b.source.isAbsolute) (h : Open b above)
    (he : e ∈ (b.collectIn fs (.ofNames above)).1) :
    ∃ names, names ≠ [] ∧ Open b (above ++ names) ∧ e.path = .ofNames (above ++ names) ∧
      SourceEntry.kindAt? fs (b.source.descend (above ++ names)) = some e.kind := by
  obtain ⟨place, t, hstat⟩ := SourceEntry.stat_of_mem_collect he
  obtain ⟨names, n, hne, hvalid, hpath, -, hkind, hshown⟩ :=
    (SourceEntry.mem_collect_ofNames_iff hwf hs h.valid hstat).1 he
  exact ⟨names, hne, h.append hvalid hshown, hpath, hkind⟩

end Builder

namespace ChangeHandler

variable {h : ChangeHandler} {fs : FileSystem} {s : WatchState} {d dir p rel : Path}
  {entries : List SourceEntry} {queueFiles created : Bool}

/-- That every directory that is there can be subscribed to, and that the worker takes jobs. -/
structure Accepts (h : ChangeHandler) : Prop where
  refuses : ∀ attempt dir, h.refuses attempt dir = false
  working : h.workerStopped = false

theorem mem_subscribe (hd : d ∈ (h.subscribe fs s dir).dirs) : d ∈ s.dirs ∨ d = dir := by
  rw [subscribe, add] at hd
  split at hd
  next heq =>
    split at heq
    · cases heq
      exact .inl hd
    · split at heq
      · cases heq
      · cases heq
        exact (List.mem_append.1 hd).imp_right List.mem_singleton.1
  next heq =>
    split at heq
    · cases heq
    · split at heq
      · cases heq
        exact .inl hd
      · cases heq

@[simp] theorem jobs_subscribe (h : ChangeHandler) (fs : FileSystem) (s : WatchState) (dir : Path) :
    (h.subscribe fs s dir).jobs = s.jobs := by
  rw [subscribe, add]
  by_cases hin : s.contains dir = true
  · simp [hin]
  · by_cases hrefused : (h.refuses s.attempts dir || !fs.exists_ dir) = true
    · simp only [hin, hrefused, Bool.false_eq_true, if_false, if_true, WatchState.jobs_log]
      rfl
    · simp [hin, hrefused, WatchState.jobs, WatchEffect.job?]

theorem Accepts.contains_subscribe (ha : h.Accepts) :
    (h.subscribe fs s dir).contains d ↔ s.contains d ∨ fs.exists_ dir ∧
    dir.components = d.components := by
  rw [subscribe, add]
  by_cases hin : s.contains dir = true
  · have hsame (heq : dir.components = d.components) : s.contains d := by
      rwa [WatchState.contains, ← heq, ← WatchState.contains]
    simp only [hin, if_true]
    exact ⟨.inl, fun hor => hor.elim id fun hnew => hsame hnew.2⟩
  · simp only [hin, Bool.false_eq_true, if_false, ha.refuses, Bool.false_or]
    cases hthere : fs.exists_ dir with
    | false => simp [WatchState.contains]
    | true => simp [WatchState.contains]

theorem submit_spec (h : ChangeHandler) (s : WatchState) (rel : Path) :
    (h.submit s rel).1.dirs = s.dirs ∧
    (h.submit s rel).1.jobs = s.jobs ++ (if h.workerStopped then [] else [rel]) ∧
      ((h.submit s rel).2 = none ↔ h.workerStopped = false) := by
  rw [submit]
  cases hstopped : h.workerStopped with
  | false => exact ⟨rfl, by simp, by simp⟩
  | true => exact ⟨rfl, by simp, by simp⟩

/-! ### Entries -/

def queuedOf (h : ChangeHandler) (queueFiles : Bool) (entries : List SourceEntry) : List Path :=
  if queueFiles && !h.workerStopped then Builder.files entries else []

theorem subscribeAll_directory (h : ChangeHandler) (fs : FileSystem) (queueFiles : Bool)
    (s : WatchState) (rel : Path) (rest : List SourceEntry) :
    h.subscribeAll fs queueFiles s (⟨rel, .directory⟩ :: rest) =
      h.subscribeAll fs queueFiles (h.subscribe fs s (h.builder.source.join rel)) rest := rfl

theorem subscribeAll_file (h : ChangeHandler) (fs : FileSystem) (s : WatchState) (rel : Path)
    (rest : List SourceEntry) :
    h.subscribeAll fs true s (⟨rel, .file⟩ :: rest) =
      if h.workerStopped then (s, some .workerStopped)
        else h.subscribeAll fs true (s.emit (.queued rel)) rest := by
  rw [subscribeAll, if_pos rfl, submit]
  split
  next heq => split at heq <;> simp_all
  next heq => split at heq <;> simp_all

theorem subscribeAll_file_unasked (h : ChangeHandler) (fs : FileSystem) (s : WatchState)
    (rel : Path) (rest : List SourceEntry) :
    h.subscribeAll fs false s (⟨rel, .file⟩ :: rest) = h.subscribeAll fs false s rest := rfl

theorem mem_subscribeAll (hd : d ∈ (h.subscribeAll fs queueFiles s entries).1.dirs) :
    d ∈ s.dirs ∨ ∃ e ∈ entries, e.kind = .directory ∧ d = h.builder.source.join e.path := by
  induction entries generalizing s with
  | nil => exact .inl hd
  | cons e rest ih =>
    have hrest (s' : WatchState) (hd : d ∈ (h.subscribeAll fs queueFiles s' rest).1.dirs) :
        d ∈ s'.dirs ∨ ∃ e' ∈ e :: rest, e'.kind = .directory ∧ d = h.builder.source.join e'.path :=
      (ih hd).imp_right fun hex => hex.imp fun _ he => ⟨List.mem_cons_of_mem _ he.1, he.2⟩
    obtain ⟨rel, kind⟩ := e
    cases kind with
    | directory =>
      cases hrest _ hd with
      | inl hmem =>
        exact (mem_subscribe hmem).imp_right fun heq => ⟨_, List.mem_cons_self, rfl, heq⟩
      | inr hmem => exact .inr hmem
    | file =>
      cases queueFiles with
      | false => exact hrest _ hd
      | true =>
        rw [subscribeAll_file] at hd
        split at hd
        · exact .inl hd
        · exact hrest (s.emit (.queued rel)) hd

theorem jobs_subscribeAll (h : ChangeHandler) (fs : FileSystem) (queueFiles : Bool) (s : WatchState)
    (entries : List SourceEntry) :
    (h.subscribeAll fs queueFiles s entries).1.jobs = s.jobs ++ h.queuedOf queueFiles entries := by
  induction entries generalizing s with
  | nil => simp [subscribeAll, queuedOf, Builder.files]
  | cons e rest ih =>
    obtain ⟨rel, kind⟩ := e
    cases kind with
    | directory =>
      rw [subscribeAll_directory, ih, jobs_subscribe]
      simp [queuedOf, Builder.files]
    | file =>
      cases queueFiles with
      | false =>
        rw [subscribeAll_file_unasked, ih]
        simp [queuedOf]
      | true =>
        rw [subscribeAll_file]
        cases hstopped : h.workerStopped with
        | true => simp [queuedOf, hstopped]
        | false =>
          rw [if_neg (by simp), ih, WatchState.jobs_emit_queued]
          simp [queuedOf, Builder.files, hstopped]

theorem Accepts.subscribeAll (ha : h.Accepts) (fs : FileSystem) (queueFiles : Bool) (s : WatchState)
    (entries : List SourceEntry) (d : Path) :
    (h.subscribeAll fs queueFiles s entries).2 = none ∧
      ((h.subscribeAll fs queueFiles s entries).1.contains d ↔ s.contains d ∨
        ∃ e ∈ entries, e.kind = .directory ∧
        fs.exists_ (h.builder.source.join e.path) ∧
        (h.builder.source.join e.path).components = d.components) := by
  induction entries generalizing s with
  | nil => exact ⟨rfl, by simp [ChangeHandler.subscribeAll]⟩
  | cons e rest ih =>
    obtain ⟨rel, kind⟩ := e
    cases kind with
    | directory =>
      rw [subscribeAll_directory]
      refine ⟨(ih _).1, (ih _).2.trans ?_⟩
      rw [ha.contains_subscribe, or_assoc]
      simp
    | file =>
      have hskip {s' : WatchState} (hsame : s'.dirs = s.dirs) :
          (h.subscribeAll fs queueFiles s' rest).2 = none ∧
            ((h.subscribeAll fs queueFiles s' rest).1.contains d ↔
              s.contains d ∨ ∃ e ∈ (⟨rel, .file⟩ : SourceEntry) :: rest, e.kind = .directory ∧
                fs.exists_ (h.builder.source.join e.path) ∧
                  (h.builder.source.join e.path).components = d.components) := by
        refine ⟨(ih _).1, (ih _).2.trans ?_⟩
        rw [WatchState.contains_congr hsame]
        simp
      cases queueFiles with
      | false => exact hskip rfl
      | true =>
        rw [subscribeAll_file, if_neg (by simp [ha.working])]
        exact hskip rfl

/-! ### Trees -/

theorem mem_subscribeBelow (hd : d ∈ (h.subscribeBelow fs s rel queueFiles).1.dirs) :
    d ∈ s.dirs ∨ ∃ e ∈ (h.builder.collectIn fs rel).1, e.kind = .directory ∧
    d = h.builder.source.join e.path := by
  have := mem_subscribeAll hd
  rwa [(WatchState.foldl_log s _).1] at this

theorem jobs_subscribeBelow (h : ChangeHandler) (fs : FileSystem) (s : WatchState) (rel : Path)
    (queueFiles : Bool) :
    (h.subscribeBelow fs s rel queueFiles).1.jobs =
      s.jobs ++ h.queuedOf queueFiles (h.builder.collectIn fs rel).1 := by
  rw [subscribeBelow, jobs_subscribeAll, (WatchState.foldl_log s _).2]

theorem Accepts.subscribeBelow (ha : h.Accepts) (d : Path) :
    (h.subscribeBelow fs s rel queueFiles).2 = none ∧
      ((h.subscribeBelow fs s rel queueFiles).1.contains d ↔
        s.contains d ∨ ∃ e ∈ (h.builder.collectIn fs rel).1, e.kind = .directory ∧
          fs.exists_ (h.builder.source.join e.path) ∧
          (h.builder.source.join e.path).components = d.components) := by
  have hall := ha.subscribeAll fs queueFiles ((h.builder.collectIn fs rel).2.foldl .log s)
    (h.builder.collectIn fs rel).1 d
  rwa [WatchState.contains_congr (WatchState.foldl_log s _).1] at hall

theorem mem_subscribeNew (hd : d ∈ (h.subscribeNew fs s dir rel).1.dirs) :
    d ∈ s.dirs ∨ d = dir ∨
      ∃ e ∈ (h.builder.collectIn fs rel).1, e.kind = .directory ∧
        d = h.builder.source.join e.path := by
  cases mem_subscribeBelow hd with
  | inr hbelow => exact .inr (.inr hbelow)
  | inl hmem =>
    cases mem_subscribe hmem with
    | inl hkept => exact .inl (WatchState.mem_forget.1 hkept).1
    | inr heq => exact .inr (.inl heq)

theorem jobs_subscribeNew (h : ChangeHandler) (fs : FileSystem) (s : WatchState) (dir rel : Path) :
    (h.subscribeNew fs s dir rel).1.jobs = s.jobs ++
      h.queuedOf true (h.builder.collectIn fs rel).1 := by
  rw [subscribeNew, jobs_subscribeBelow, jobs_subscribe, WatchState.jobs_log,
    WatchState.jobs_forget]

theorem Accepts.subscribeNew (ha : h.Accepts) (d : Path) :
    (h.subscribeNew fs s dir rel).2 = none ∧
      ((h.subscribeNew fs s dir rel).1.contains d ↔
        ((s.contains d ∧ d.startsWith dir = false) ∨ fs.exists_ dir ∧
          dir.components = d.components) ∨
          ∃ e ∈ (h.builder.collectIn fs rel).1, e.kind = .directory ∧
            fs.exists_ (h.builder.source.join e.path) ∧
            (h.builder.source.join e.path).components = d.components) := by
  refine ⟨(ha.subscribeBelow d).1, (ha.subscribeBelow d).2.trans ?_⟩
  rw [ha.contains_subscribe, WatchState.contains_congr (WatchState.dirs_log _ _),
    WatchState.contains_forget]

/-- What handling one path comes to, and when. -/
inductive Handling (h : ChangeHandler) (fs : FileSystem) (created : Bool) (s : WatchState)
    (p : Path) :
    WatchState × Option WatchError → Prop
  | hidden (invisible : h.visible? p = none) : Handling h fs created s p (s, none)
  | known (rel : Path) (visible : h.visible? p = some rel) (directory : fs.isDirectory p)
      (old : created = false)
      (subscribed : s.contains p) : Handling h fs created s p (s, none)
  | subscribed (rel : Path) (visible : h.visible? p = some rel) (directory : fs.isDirectory p)
      (new : created = true ∨ s.contains p = false) :
      Handling h fs created s p (h.subscribeNew fs s p rel)
  | queued (rel : Path) (visible : h.visible? p = some rel) (file : fs.isFile p) :
      Handling h fs created s p (h.submit s rel)
  | forgotten (rel : Path) (visible : h.visible? p = some rel)
      (noDirectory : fs.isDirectory p = false)
      (noFile : fs.isFile p = false) : Handling h fs created s p (s.forget p, none)

theorem handling (h : ChangeHandler) (fs : FileSystem) (created : Bool) (s : WatchState)
    (p : Path) :
    Handling h fs created s p (h.handle fs created s p) := by
  rw [handle]
  split
  next hnone => exact .hidden hnone
  next rel hvisible =>
    split
    next hdir =>
      split
      next hnew => exact .subscribed rel hvisible hdir (by simpa using hnew)
      next hold =>
        rw [Bool.or_eq_true, not_or, Bool.not_eq_true, Bool.not_eq_true, Bool.not_eq_false'] at hold
        exact .known rel hvisible hdir hold.1 hold.2
    next hdir =>
      split
      next hfile => exact .queued rel hvisible hfile
      next hfile => exact .forgotten rel hvisible (by simpa using hdir) (by simpa using hfile)

theorem visible?_descend (hs : h.builder.source.isAbsolute) {names : List Text} (hne : names ≠ [])
    (hvalid : ValidNames names) :
    h.visible? (h.builder.source.descend names) =
      if h.builder.policy.excludesPath (.ofNames names) then none else some (.ofNames names) := by
  rw [visible?, Path.stripPrefix?_descend hs hvalid.plain]
  simp [Path.text_ofNames_ne_nil hne hvalid]

theorem visible?_descend_concat (hs : h.builder.source.isAbsolute) {names : List Text} {name : Text}
    (hopen : Builder.Open h.builder names) (hname : ValidName name)
    (hvisible : h.visible? (h.builder.source.descend (names ++ [name])) = some rel) :
    rel = .ofNames (names ++ [name]) ∧ Builder.Open h.builder (names ++ [name]) := by
  have hvalid : ValidNames (names ++ [name]) :=
    hopen.valid.append (by simpa [ValidNames] using hname)
  rw [visible?_descend hs (by simp) hvalid] at hvisible
  split at hvisible
  · cases hvisible
  next hshown =>
    cases hvisible
    exact ⟨rfl, hopen.concat hname (by simpa using hshown)⟩

end ChangeHandler
end StaticSite
