import StaticSite.Proofs.Making
import StaticSite.Proofs.Outputs

/-! What building one file changes: directories are made where nothing was, and then at most one
file is put, where the path of the output leads. Nothing is put for a file that is up to date. -/
namespace StaticSite

namespace FileSystem

variable {fs fs' : FileSystem} {p q : Place} {n : Node} {path : Path}

/-- Puts a file where a path leads. What is put may depend on where that is. -/
def deposit (fs : FileSystem) (path : Path) (content : Place → Bytes) :
    FileSystem × Option IoError :=
  match fs.target path with
  | .error e => (fs, some e)
  | .ok q => ((fs.put q (.file (content q) fs.clock)).tick, none)

theorem write_eq_deposit (fs : FileSystem) (path : Path) (content : Bytes) :
    fs.write path content none = fs.deposit path fun _ => content := by
  rw [write, deposit]
  cases fs.target path <;> rfl

theorem copy_eq_deposit {source : Path} {origin : Place} {content : Bytes} {t : Nat}
    (h : fs.stat source = .ok (origin, .file content t)) (path : Path) :
    fs.copy source path none = fs.deposit path fun q => if q = origin then [] else content := by
  rw [copy, h, deposit]
  cases fs.target path <;> rfl

theorem copy_cases (fs : FileSystem) (source path : Path) :
    (fs.copy source path none).1 = fs ∨
    ∃ content, fs.copy source path none = fs.deposit path content := by
  cases h : fs.stat source with
  | error e => exact .inl (by rw [copy, h])
  | ok r =>
    obtain ⟨origin, node⟩ := r
    cases node with
    | file content t => exact .inr ⟨_, copy_eq_deposit h path⟩
    | directory | link => exact .inl (by rw [copy, h])

theorem WellFormed.of_target (h : fs.WellFormed) (hp : path.isAbsolute)
    (ht : fs.target path = .ok q) :
    (∃ r m u, q = r ++ [m] ∧ ValidName m ∧ fs.at? r = some (.directory u)) ∧
      ((∃ content t, fs.find true path = .ok (.found q (.file content t)) ∧
        fs.at? q = some (.file content t)) ∨
        fs.find true path = .ok (.free q) ∧ fs.at? q = none) := by
  rw [target] at ht
  split at ht
  · simp at ht
  next place content t hf =>
    rw [Except.ok.injEq] at ht
    subst ht
    obtain ⟨hat, -⟩ := h.at?_of_stat hp (stat_eq_ok.2 hf)
    cases List.eq_nil_or_concat' place with
    | inl heq =>
      subst heq
      simp at hat
    | inr hcase =>
      obtain ⟨r, m, rfl⟩ := hcase
      obtain ⟨u, hu⟩ := h.parent hat
      exact ⟨⟨r, m, u, rfl, h.validName hat, hu⟩, .inl ⟨content, t, hf, hat⟩⟩
  · simp at ht
  next place hf =>
    rw [Except.ok.injEq] at ht
    subst ht
    obtain ⟨r, m, u, hq, hm, hr, hnone⟩ := h.free_of_find hp hf
    exact ⟨⟨r, m, u, hq, hm, hr⟩, .inr ⟨hf, hnone⟩⟩

theorem WellFormed.at?_of_target (h : fs.WellFormed) (hp : path.isAbsolute)
    (ht : fs.target path = .ok q) :
    ∀ t, fs.at? q ≠ some (.directory t) := by
  intro t hdir
  obtain ⟨-, ⟨content, u, -, hat⟩ | ⟨-, hat⟩⟩ := h.of_target hp ht <;> simp [hdir] at hat

theorem WellFormed.put_target (h : fs.WellFormed) (hp : path.isAbsolute)
    (ht : fs.target path = .ok q) (content : Bytes) (t : Nat) :
    (fs.put q (.file content t)).WellFormed := by
  obtain ⟨⟨r, m, u, rfl, hm, hr⟩, hat⟩ := h.of_target hp ht
  refine h.put hr hm fun _ k => ?_
  cases hat with
  | inl hcase =>
    obtain ⟨_, _, -, hat⟩ := hcase
    cases hk : fs.at? (r ++ [m] ++ [k]) with
    | none => rfl
    | some n =>
      obtain ⟨v, hv⟩ := h.parent hk
      simp [hat] at hv
  | inr hcase =>
    obtain ⟨-, hat⟩ := hcase
    exact h.none_below hat

theorem deposit_cases (fs : FileSystem) (path : Path) (content : Place → Bytes) :
    (fs.deposit path content).1 = fs ∨
      ∃ q, fs.target path = .ok q ∧ (fs.deposit path content).1 =
        (fs.put q (.file (content q) fs.clock)).tick := by
  rw [deposit]
  cases fs.target path with
  | error e => exact .inl rfl
  | ok q => exact .inr ⟨q, rfl, rfl⟩

end FileSystem

namespace Builder

open FileSystem

variable {b : Builder} {fs : FileSystem} {rel : Path}

theorem ensureParent_files (fs : FileSystem) (path : Path) :
    (ensureParent fs path).1 = match path.parent? with
      | none => fs
      | some parent => (fs.makeAll parent).1 := by
  rw [ensureParent]
  cases path.parent? with
  | none => rfl
  | some parent =>
    cases h : fs.makeAll parent with
    | mk made e => cases e <;> simp [h]

theorem ensureParent_grows (hfs : fs.WellFormed) {path : Path} (hp : path.isAbsolute) :
    fs.Grows (ensureParent fs path).1 := by
  rw [ensureParent_files]
  split
  · exact .refl hfs
  next parent hparent => exact makeAll_grows hfs (Path.isAbsolute_parent? hp hparent)

theorem copyFile_files (b : Builder) (fs : FileSystem) (rel : Path) :
    (b.copyFile fs rel none).1 = (ensureParent fs (b.destinationFor rel)).1 ∨
      (b.copyFile fs rel none).1 =
        ((ensureParent fs (b.destinationFor rel)).1.copy (b.source.join rel) (b.destinationFor rel)
          none).1 := by
  rw [copyFile]
  split
  next made e heq => exact .inl (by rw [heq])
  next made heq =>
    rw [heq]
    refine .inr ?_
    split <;> simp_all

theorem perform_files (b : Builder) (fs : FileSystem) (rel : Path) (action : Action) :
    (b.perform fs rel none action).1 = fs ∨
      action ≠ .skip ∧ ((b.perform fs rel none action).1 =
        (ensureParent fs (b.destinationFor rel)).1 ∨
        ∃ content, (b.perform fs rel none action).1 =
          ((ensureParent fs (b.destinationFor rel)).1.deposit (b.destinationFor rel)
            content).1) := by
  have hcopy : (b.copyFile fs rel none).1 = (ensureParent fs (b.destinationFor rel)).1 ∨
      ∃ content, (b.copyFile fs rel none).1 =
        ((ensureParent fs (b.destinationFor rel)).1.deposit (b.destinationFor rel) content).1 := by
    cases copyFile_files b fs rel with
    | inl hmade => exact .inl hmade
    | inr hcopied =>
      rcases copy_cases (ensureParent fs (b.destinationFor rel)).1 (b.source.join rel)
        (b.destinationFor rel) with h | ⟨content, h⟩
      · exact .inl (hcopied.trans h)
      · exact .inr ⟨content, hcopied.trans (by rw [h])⟩
  cases action with
  | skip => exact .inl rfl
  | copy | copyVerbatim => exact .inr ⟨by simp, hcopy⟩
  | write page =>
    refine .inr ⟨by simp, ?_⟩
    rw [perform, writePage]
    split
    next made e heq => exact .inl (by rw [heq])
    next made heq =>
      rw [heq, write_eq_deposit]
      refine .inr ⟨fun _ => Text.Utf8.encode page.text, ?_⟩
      split <;> simp_all

theorem isUpToDate_of_stat {input output : Path} {p q : Place} {n m : Node}
    (hin : fs.stat input = .ok (p, n)) (hout : fs.stat output = .ok (q, m)) :
    isUpToDate fs input output = .ok (fs.timeOf p n ≤ fs.timeOf q m) := by
  simp only [isUpToDate, modified_of_stat hin, modified_of_stat hout, Except.toOption,
    Option.any_some]

theorem isUpToDate_of_absent {input output : Path} {p : Place} {n : Node} {e : IoError}
    (hin : fs.stat input = .ok (p, n)) (hout : fs.stat output = .error e) :
    isUpToDate fs input output = .ok false := by
  simp only [isUpToDate, modified_of_stat hin, modified_of_error hout, Except.toOption,
    Option.any_none]

theorem isUpToDate_iff {input output : Path} :
    isUpToDate fs input output = .ok true ↔
      ∃ p n q m, fs.stat input = .ok (p, n) ∧ fs.stat output = .ok (q, m) ∧
        fs.timeOf p n ≤ fs.timeOf q m := by
  constructor
  · intro h
    cases hin : fs.stat input with
    | error e => simp [isUpToDate, modified_of_error hin] at h
    | ok r =>
      cases hout : fs.stat output with
      | error e => simp [isUpToDate_of_absent hin hout] at h
      | ok s =>
        rw [isUpToDate_of_stat hin hout, Except.ok.injEq, decide_eq_true_eq] at h
        exact ⟨r.1, r.2, s.1, s.2, rfl, rfl, h⟩
  · rintro ⟨p, n, q, m, hin, hout, hle⟩
    rw [isUpToDate_of_stat hin hout, decide_eq_true hle]

theorem plan_of_isUpToDate (h : isUpToDate fs (b.source.join rel) (b.destinationFor rel) =
      .ok true) :
    b.plan fs rel = .ok .skip := by
  rw [plan, decide, h]
  split <;> rfl

theorem renderFile_ne_skip (conversion : Option Conversion) :
    b.renderFile fs rel conversion ≠ .ok .skip := by
  rw [renderFile]
  split
  · simp
  split
  · simp
  split
  · simp
  split <;> simp

theorem isUpToDate_of_skip (hshown : b.policy.excludesPath rel = false)
    (h : b.plan fs rel = .ok .skip) :
    isUpToDate fs (b.source.join rel) (b.destinationFor rel) = .ok true := by
  rw [plan, hshown, decide] at h
  cases hfresh : isUpToDate fs (b.source.join rel) (b.destinationFor rel) with
  | error e => simp [hfresh, Except.map] at h
  | ok fresh =>
    cases fresh with
    | true => rfl
    | false =>
      rw [hfresh] at h
      cases htransform : b.transforms.transformFor rel with
      | copy => simp [htransform, Except.map] at h
      | render conversion =>
        simp only [htransform, Except.map, Bool.false_eq_true, if_false] at h
        exact absurd h (renderFile_ne_skip conversion)

theorem isUpToDate_of_plan {action : Action} (h : b.plan fs rel = .ok action)
    (hne : action ≠ .skip) :
    isUpToDate fs (b.source.join rel) (b.destinationFor rel) = .ok false := by
  rw [plan] at h
  split at h
  · exact absurd (Except.ok.inj h).symm hne
  cases hfresh : isUpToDate fs (b.source.join rel) (b.destinationFor rel) with
  | error e => simp [decide, hfresh, Except.map] at h
  | ok fresh =>
    cases fresh with
    | false => rfl
    | true =>
      simp only [decide, hfresh, Except.map, if_true] at h
      exact absurd (Except.ok.inj h).symm hne

theorem buildFile_files (b : Builder) (fs : FileSystem) (rel : Path) :
    (b.buildFile fs rel).files = fs ∨
      isUpToDate fs (b.source.join rel) (b.destinationFor rel) = .ok false ∧
        ((b.buildFile fs rel).files = (ensureParent fs (b.destinationFor rel)).1 ∨
          ∃ content, (b.buildFile fs rel).files =
            ((ensureParent fs (b.destinationFor rel)).1.deposit (b.destinationFor rel)
              content).1) := by
  rw [buildFile, buildFileFaulty]
  split
  · exact .inl rfl
  next action hplan =>
    cases perform_files b fs rel action with
    | inl h => exact .inl h
    | inr hcase =>
      obtain ⟨hne, h⟩ := hcase
      exact .inr ⟨isUpToDate_of_plan hplan hne, h⟩

end Builder
end StaticSite
